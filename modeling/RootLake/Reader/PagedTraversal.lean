import RootLake.Reader.TraversalEvents

/-!
# Paged traversal

The index tuple of an emitted value says where the traversal was: the loop positions a
cursor computes from it are those of the value, so a page that is moved back to a value
emits exactly what comes after it (`resume_refines`). Reading page by page is then
reading the whole entry (`readPages_eq_collectDirect`).
-/

namespace RootLake

open Feed Batch

variable {mem : RootMemory}

/-! ### Positions of the events -/

/-- What the events below `indices` look like: rows extend the indices and have all names,
    and no error is one of a cursor. -/
def EventOk (indices : List Int) (names : List String) : TraversalEvent → Prop
  | .row e => (∃ more, e.indices = indices ++ more) ∧ e.names = names
  | .idle => False
  | .fail e => e.ofCursor = false

theorem EventOk.of_append {indices more : List Int} {names : List String}
    {event : TraversalEvent} (h : EventOk (indices ++ more) names event) :
    EventOk indices names event := by
  cases event with
  | row e =>
    obtain ⟨⟨rest, he⟩, hnames⟩ := h
    exact ⟨⟨more ++ rest, by rw [he, List.append_assoc]⟩, hnames⟩
  | idle => exact h
  | fail e => exact h

theorem readNumber_error {pointer : Address} {type : String} {e : TraversalError}
    (h : readNumber mem pointer type = .error e) : e.ofCursor = false := by
  unfold readNumber at h
  cases hread : mem.primitive pointer type with
  | error e' =>
    rw [hread] at h
    exact Except.error.inj h ▸ rfl
  | ok v =>
    rw [hread] at h
    exact absurd h (by simp)

theorem readString_error {pointer : Address} {type : String} {e : TraversalError}
    (h : readString mem pointer type = .error e) : e.ofCursor = false := by
  unfold readString at h
  cases hread : mem.string pointer type with
  | error e' =>
    rw [hread] at h
    exact Except.error.inj h ▸ rfl
  | ok v =>
    rw [hread] at h
    exact absurd h (by simp)

/-- A leaf is read as a number or as a string. -/
def LeafOk (leaf : Option (Except TraversalError SinkValue)) : Prop :=
  ∀ e, leaf = some (.error e) → e.ofCursor = false

theorem containerLeaf_ok (inner : String) (element : Address) :
    LeafOk (containerLeaf mem inner element) := by
  intro e h
  unfold containerLeaf at h
  split_ifs at h
  · exact readNumber_error (Option.some.inj h)
  · exact readString_error (Option.some.inj h)

theorem fieldLeaf_ok (level : PathLevel) (field : Address) :
    LeafOk (fieldLeaf mem level field) := by
  intro e h
  unfold fieldLeaf at h
  split_ifs at h
  · exact readNumber_error (Option.some.inj h)
  · exact readString_error (Option.some.inj h)

theorem arrayLeaf_ok (level : PathLevel) (element : Address) :
    LeafOk (arrayLeaf mem level element) := by
  intro e h
  unfold arrayLeaf at h
  split_ifs at h
  exact readNumber_error (Option.some.inj h)

theorem leafEvents_ok {leaf : Option (Except TraversalError SinkValue)} (h : LeafOk leaf)
    (indices : List Int) (names : List String) :
    ∀ event ∈ leafEvents leaf indices names, EventOk indices names event := by
  intro event hevent
  cases leaf with
  | none => exact absurd hevent List.not_mem_nil
  | some read =>
    cases read with
    | error e =>
      rw [leafEvents, List.mem_singleton] at hevent
      exact hevent ▸ h e rfl
    | ok value =>
      rw [leafEvents, List.mem_singleton] at hevent
      exact hevent ▸ ⟨⟨[], by simp⟩, rfl⟩

theorem arrayCoordinates_error {dimensions : List Nat} {flatIndex : Nat} {e : TraversalError}
    (h : arrayCoordinates dimensions flatIndex = .error e) : e.ofCursor = false := by
  induction dimensions with
  | nil => exact absurd h (by simp [arrayCoordinates])
  | cons d ds ih =>
    simp only [arrayCoordinates] at h
    cases hds : arrayCoordinates ds flatIndex with
    | error e' =>
      rw [hds] at h
      exact ih (hds.trans h)
    | ok result =>
      rw [hds] at h
      simp only [bind, Except.bind] at h
      split_ifs at h <;> exact Except.error.inj h ▸ rfl

theorem pushArrayCoordinates_error {dimensions : List Nat} {i : Nat} {indices : List Int}
    {e : TraversalError} (h : pushArrayCoordinates i dimensions indices = .error e) :
    e.ofCursor = false := by
  unfold pushArrayCoordinates at h
  split_ifs at h
  · exact Except.error.inj h ▸ rfl
  · cases hc : arrayCoordinates dimensions i with
    | error e' =>
      rw [hc] at h
      exact Except.error.inj h ▸ arrayCoordinates_error hc
    | ok result =>
      rw [hc] at h
      exact absurd h (by simp [Except.map])

theorem pushArrayCoordinates_append {dimensions : List Nat} {i : Nat} {indices indices' : List Int}
    (h : pushArrayCoordinates i dimensions indices = .ok indices') :
    ∃ coordinates, indices' = indices ++ coordinates := by
  unfold pushArrayCoordinates at h
  split_ifs at h
  · exact ⟨_, (Except.ok.inj h).symm⟩
  · cases hc : arrayCoordinates dimensions i with
    | error e =>
      rw [hc] at h
      exact absurd h (by simp [Except.map])
    | ok result =>
      rw [hc] at h
      exact ⟨_, (Except.ok.inj h).symm⟩

theorem checkedContainerIndex_error {i : Nat} {e : TraversalError}
    (h : checkedContainerIndex i = .error e) : e.ofCursor = false := by
  unfold checkedContainerIndex at h
  split_ifs at h
  exact Except.error.inj h ▸ rfl

theorem checkedContainerIndex_ok {i : Nat} {index : Int}
    (h : checkedContainerIndex i = .ok index) : index = i := by
  unfold checkedContainerIndex at h
  split_ifs at h
  exact (Except.ok.inj h).symm

/-- The levels below a loop emit events of this form. -/
def BelowOk (mem : RootMemory) (levels : List PathLevel) : Prop :=
  ∀ (current : Address) (indices : List Int) (above : List String),
    ∀ event ∈ traversalEvents mem levels current indices above,
      EventOk indices (above ++ levels.flatMap levelIndexNames) event

section Loops

variable {level : PathLevel} {rest : List PathLevel} {indices : List Int} {above : List String}

theorem element_ok (ih : BelowOk mem rest) {leaf : Option (Except TraversalError SinkValue)}
    (hleaf : LeafOk leaf) (element : Address) (indices : List Int) (above : List String) :
    ∀ event ∈ (if rest.isEmpty then leafEvents leaf indices above
        else traversalEvents mem rest element indices above),
      EventOk indices (above ++ rest.flatMap levelIndexNames) event := by
  cases rest with
  | nil => simpa using leafEvents_ok hleaf indices above
  | cons next rest => exact ih element indices above

theorem arrayEvents_ok (ih : BelowOk mem rest) (array : FixedArray) (field : Address) (i : Nat) :
    ∀ event ∈ arrayEvents mem level rest array field indices above i,
      EventOk indices (above ++ rest.flatMap levelIndexNames) event ∧
      ∀ e, event = .row e → ∃ indices' more,
        pushArrayCoordinates i array.dimensions indices = .ok indices' ∧
          e.indices = indices' ++ more := by
  intro event hevent
  unfold arrayEvents at hevent
  cases hpush : pushArrayCoordinates i array.dimensions indices with
  | error e =>
    rw [hpush] at hevent
    rw [List.mem_singleton.mp hevent]
    exact ⟨pushArrayCoordinates_error hpush, fun e he => absurd he (by simp)⟩
  | ok indices' =>
    rw [hpush] at hevent
    have hok := element_ok ih (arrayLeaf_ok level _) _ indices' above event hevent
    refine ⟨?_, fun e he => ?_⟩
    · obtain ⟨coordinates, rfl⟩ := pushArrayCoordinates_append hpush
      exact hok.of_append
    · subst he
      obtain ⟨⟨more, hmore⟩, -⟩ := hok
      exact ⟨indices', more, rfl, hmore⟩

theorem containerEvents_ok (ih : BelowOk mem rest) (elements : List Address) (i : Nat) :
    ∀ event ∈ containerEvents mem level rest elements indices above i,
      EventOk indices (above ++ rest.flatMap levelIndexNames) event ∧
      ∀ e, event = .row e → ∃ more, e.indices = indices ++ [(i : Int)] ++ more := by
  intro event hevent
  unfold containerEvents at hevent
  cases hindex : checkedContainerIndex i with
  | error e =>
    rw [hindex] at hevent
    rw [List.mem_singleton.mp hevent]
    exact ⟨checkedContainerIndex_error hindex, fun e he => absurd he (by simp)⟩
  | ok index =>
    rw [hindex] at hevent
    obtain rfl := checkedContainerIndex_ok hindex
    by_cases hnull : elementAt mem level elements i = 0
    · simp only [hnull, if_true] at hevent
      exact absurd hevent List.not_mem_nil
    · simp only [hnull, if_false] at hevent
      have hok := element_ok ih (containerLeaf_ok _ _) _ (indices ++ [(i : Int)]) above event hevent
      refine ⟨hok.of_append, fun e he => ?_⟩
      subst he
      exact hok.1

end Loops

theorem traversalEvents_ok (levels : List PathLevel) : BelowOk mem levels := by
  induction levels with
  | nil => exact fun _ _ _ _ h => absurd h List.not_mem_nil
  | cons level rest ih =>
    intro current indices above event hevent
    rw [List.flatMap_cons, ← List.append_assoc]
    by_cases hpasses : ∃ field, Passes mem level current field
    · obtain ⟨field, hpass⟩ := hpasses
      cases ha : level.fixedArray with
      | some array =>
        rw [traversalEvents_array hpass ha] at hevent
        obtain ⟨i, -, hi⟩ := List.mem_flatMap.mp hevent
        exact (arrayEvents_ok ih array field i event hi).1
      | none =>
        cases hc : level.isContainer with
        | true =>
          rw [traversalEvents_container hpass ha hc] at hevent
          cases hopen : openContainer mem level rest.isEmpty field with
          | none =>
            rw [hopen] at hevent
            exact absurd hevent List.not_mem_nil
          | some elements =>
            rw [hopen] at hevent
            obtain ⟨i, -, hi⟩ := List.mem_flatMap.mp hevent
            exact (containerEvents_ok ih elements i event hi).1
        | false =>
          rw [traversalEvents_scalar hpass ha hc] at hevent
          cases rest with
          | nil => simpa using leafEvents_ok (fieldLeaf_ok level field) indices _ event hevent
          | cons next rest =>
            by_cases hklass : level.klass.isSome
            · simp only [List.isEmpty_cons, Bool.false_eq_true, if_false, hklass, if_true] at hevent
              exact ih field indices _ event hevent
            · simp only [List.isEmpty_cons, Bool.false_eq_true, if_false, hklass] at hevent
              exact absurd hevent List.not_mem_nil
    · rw [traversalEvents_blocked (not_exists.mp hpasses)] at hevent
      exact absurd hevent List.not_mem_nil

/-! ### Going back to a value -/

/-- What the cursor's sink does with a value it keeps. -/
def CursorPage.add (entryId : Int64) (page : CursorPage) (e : Emission) : CursorPage where
  skipPrevious := page.skipPrevious
  output := page.output.add e.value entryId e.indices e.names
  lastIndices := e.indices

/-- The previous value has been met, or there is none. -/
def CursorPage.Restored (page : CursorPage) : Prop := page.skipPrevious = false

theorem cursorPageSink_plain (limit : Nat) (entryId : Int64) (previous : List Int) :
    Plain (cursorPageSink limit entryId previous) CursorPage.Restored
      (CursorPage.add entryId) where
  start := by
    intro page h level indices
    have h : page.skipPrevious = false := h
    simp only [cursorPageSink, cursorStartIndex, h, Bool.not_false, Bool.true_or, if_true]
  value := by
    intro page h read indices names
    have h : page.skipPrevious = false := h
    simp only [cursorPageSink, h, Bool.false_eq_true, if_false]
    cases read <;> simp [Except.map, CursorPage.add, h]
  keeps := fun h _ => h

theorem directSink_plain (maxValues : Int) (entryId : Int64) :
    Plain (directSink maxValues entryId) (fun _ => True)
      (fun result e => result.add e.value entryId e.indices e.names) where
  start := fun _ _ _ => rfl
  value := fun _ _ _ _ => rfl
  keeps := fun _ _ => trivial

section Resume

variable {limit : Nat} {entryId : Int64} {previous : List Int} {page : CursorPage}
variable {level : PathLevel} {rest : List PathLevel} {indices : List Int} {above : List String}

theorem cursorStartIndex_inside (hskip : page.skipPrevious = true) (more : List Int)
    (hprevious : previous = indices ++ more) :
    cursorStartIndex previous page level indices =
      match level.fixedArray with
      | some array =>
          if more.length < max 1 array.dimensions.length then .ok 0
          else if array.dimensions.length ≤ 1 then restoreIndex more
          else restoreArrayIndex array.dimensions more 0
      | none => if more.length < 1 then .ok 0 else restoreIndex more := by
  subst hprevious
  have hguard : (!page.skipPrevious || decide (indices.length > (indices ++ more).length) ||
      decide (indices ≠ (indices ++ more).take indices.length)) = false := by
    simp [hskip]
  unfold cursorStartIndex
  rw [hguard]
  cases level.fixedArray <;>
    simp only [Bool.false_eq_true, if_false, List.drop_left, List.length_append,
      Nat.add_sub_cancel_left]

/-- A cursor computes the position that its coordinates in an array stand for. -/
theorem cursorStartIndex_flat (hskip : page.skipPrevious = true) {array : FixedArray}
    (ha : level.fixedArray = some array) {coordinates more : List Int}
    (hall : List.Forall₂ (fun (d : Nat) (c : Int) => 0 ≤ c ∧ c.toNat < d) array.dimensions
      coordinates)
    (hsmall : flatPosition array.dimensions coordinates < 2 ^ 64)
    (hprevious : previous = indices ++ coordinates ++ more) :
    cursorStartIndex previous page level indices =
      .ok (flatPosition array.dimensions coordinates) := by
  have hpos := List.length_pos_of_ne_nil array.nonempty
  have hlength := hall.length_eq
  rw [cursorStartIndex_inside hskip (coordinates ++ more) (by rw [hprevious, List.append_assoc]),
    ha]
  simp only
  rw [if_neg (by rw [List.length_append]; omega)]
  by_cases hone : array.dimensions.length ≤ 1
  · rw [if_pos hone]
    have hdims : array.dimensions.length = 1 := by omega
    obtain ⟨d, hd⟩ := List.length_eq_one_iff.mp hdims
    rw [hd] at hall ⊢
    cases hall with
    | @cons _ c _ cs hc hnil =>
      cases hnil
      simp only [List.cons_append, restoreIndex, flatPosition, List.prod_nil, Nat.mul_one,
        Nat.add_zero, if_neg (not_lt.mpr hc.1)]
  · rw [if_neg hone, restoreArrayIndex_eq hall (fun d hd => (array.positive d hd).1) 0 (by omega),
      Nat.zero_mul, Nat.zero_add]

/-- The position a cursor computes inside an array is the one it was at. -/
theorem cursorStartIndex_array (hskip : page.skipPrevious = true) {array : FixedArray}
    (ha : level.fixedArray = some array) {i : Nat} (hi : i < array.length)
    {indices' more : List Int}
    (hpush : pushArrayCoordinates i array.dimensions indices = .ok indices')
    (hprevious : previous = indices' ++ more) :
    cursorStartIndex previous page level indices = .ok i := by
  obtain ⟨coordinates, rfl, hall, rfl⟩ := pushArrayCoordinates_spec array hi hpush
  exact cursorStartIndex_flat hskip ha hall (hi.trans array.small) hprevious

theorem cursorStartIndex_container (hskip : page.skipPrevious = true)
    (ha : level.fixedArray = none) {i : Nat} {more : List Int}
    (hprevious : previous = indices ++ [(i : Int)] ++ more) :
    cursorStartIndex previous page level indices = .ok i := by
  rw [cursorStartIndex_inside hskip ([(i : Int)] ++ more)
    (by rw [hprevious, List.append_assoc]), ha]
  simp only [List.singleton_append, List.length_cons, restoreIndex]
  rw [if_neg (by omega), if_neg (by omega), Int.toNat_natCast]

/-- Running a cursor's sink below `rest` skips what comes before the previous value. -/
def BelowResumes (mem : RootMemory) (limit : Nat) (entryId : Int64) (previous : List Int)
    (rest : List PathLevel) : Prop :=
  ∀ (current : Address) (indices : List Int) (above names : List String) (page : CursorPage),
    page.skipPrevious = true → page.output.rows.length < limit → NamesOk rest above names →
    above.length = indices.length → ∀ (past later : List TraversalEvent) (e : Emission),
    traversalEvents mem rest current indices above = past ++ .row e :: later →
    e.indices = previous →
    Refines (Carries CursorPage.Restored rest above)
      (collectValuesRecursive mem (cursorPageSink limit entryId previous) rest current indices
        (names, page))
      (feed (cursorPageSink limit entryId previous).full (CursorPage.add entryId)
        { page with skipPrevious := false } later)

theorem leaf_resumes (hskip : page.skipPrevious = true) {names : List String}
    (hnames : NamesOk [] above names) {leaf : Option (Except TraversalError SinkValue)}
    {past later : List TraversalEvent} {e : Emission}
    (hevents : leafEvents leaf indices above = past ++ .row e :: later)
    (he : e.indices = previous) :
    Refines (Carries CursorPage.Restored [] above)
      ((cursorPageSink limit entryId previous).leaf page leaf indices names)
      (feed (cursorPageSink limit entryId previous).full (CursorPage.add entryId)
        { page with skipPrevious := false } later) := by
  have hlength := congrArg List.length hevents
  rw [List.length_append, List.length_cons] at hlength
  cases leaf with
  | none => simp [leafEvents] at hlength
  | some read =>
    cases read with
    | error e' =>
      simp only [leafEvents, List.length_singleton] at hlength
      obtain rfl : past = [] := List.eq_nil_of_length_eq_zero (by omega)
      simp [leafEvents] at hevents
    | ok value =>
      simp only [leafEvents, List.length_singleton] at hlength
      obtain rfl : past = [] := List.eq_nil_of_length_eq_zero (by omega)
      obtain rfl : later = [] := List.eq_nil_of_length_eq_zero (by omega)
      simp only [leafEvents, List.nil_append, List.cons.injEq, and_true, Event.row.injEq] at hevents
      subst hevents
      have hindices : indices = previous := he
      simp only [Sink.leaf, cursorPageSink, hskip, if_true, hindices, Except.map, feed_nil]
      exact ⟨rfl, hnames, rfl⟩

theorem element_resumes (ih : BelowResumes mem limit entryId previous rest)
    (hskip : page.skipPrevious = true) (hroom : page.output.rows.length < limit)
    {names : List String} (hnames : NamesOk rest above names)
    (hdepth : above.length = indices.length)
    {leaf : Option (Except TraversalError SinkValue)} {element : Address}
    {past later : List TraversalEvent} {e : Emission}
    (hevents : (if rest.isEmpty then leafEvents leaf indices above
      else traversalEvents mem rest element indices above) = past ++ .row e :: later)
    (he : e.indices = previous) :
    Refines (Carries CursorPage.Restored rest above)
      (if rest.isEmpty then (cursorPageSink limit entryId previous).leaf page leaf indices names
        else collectValuesRecursive mem (cursorPageSink limit entryId previous) rest element
          indices (names, page))
      (feed (cursorPageSink limit entryId previous).full (CursorPage.add entryId)
        { page with skipPrevious := false } later) := by
  cases rest with
  | nil => exact leaf_resumes hskip hnames hevents he
  | cons next rest => exact ih element indices above names page hskip hroom hnames hdepth _ _ e hevents he

/-- **A restored cursor emits what comes after its previous value.** -/
theorem resume_refines (levels : List PathLevel) :
    BelowResumes mem limit entryId previous levels := by
  induction levels with
  | nil =>
    intro current indices above names page _ _ _ _ past later e hevents
    simp [traversalEvents] at hevents
  | cons level rest ih =>
    intro current indices above names page hskip hroom hnames hdepth past later e hevents he
    have hplain := cursorPageSink_plain limit entryId previous
    have hbelow := @collect_refines _ mem _ _ _ hplain rest
    have hleave : ∀ t m, Carries CursorPage.Restored rest (above ++ levelIndexNames level) t m →
        Carries CursorPage.Restored (level :: rest) above t m :=
      fun t m hc => ⟨hc.1, hc.2.1.leave, hc.2.2⟩
    have hfull : (cursorPageSink limit entryId previous).full page = false := by
      simpa [cursorPageSink] using hroom
    by_cases hpasses : ∃ field, Passes mem level current field
    · obtain ⟨field, hpass⟩ := hpasses
      cases ha : level.fixedArray with
      | some array =>
        rw [traversalEvents_array hpass ha] at hevents
        obtain ⟨i, before, after, -, hi, hsplit, rfl⟩ := flatMap_range'_split hevents
        rw [Nat.zero_add] at hi
        obtain ⟨-, hrow⟩ := arrayEvents_ok (traversalEvents_ok rest) array field i (.row e)
          (hsplit ▸ List.mem_append_right _ List.mem_cons_self)
        obtain ⟨indices', more, hpush, hmore⟩ := hrow e rfl
        have hstart := cursorStartIndex_array hskip ha hi hpush (he ▸ hmore)
        rw [collect_array hpass ha hfull hstart, Nat.zero_add]
        refine Refines.mono hleave
          (forRange_refines_from (fun t m ht => congrArg _ ht.1) hi ?_ ?_ ?_)
        · exact hfull
        · unfold arrayIteration
          unfold arrayEvents at hsplit
          rw [hpush] at hsplit ⊢
          exact element_resumes ih hskip hroom (hnames.enter_array ha hdepth)
            (pushArrayCoordinates_length ha hi hdepth hpush) hsplit he
        · intro j t m _ hj hroom ht
          exact arrayIteration_refines hplain hbelow ha field hdepth hj t m hroom ht
      | none =>
        cases hc : level.isContainer with
        | true =>
          rw [traversalEvents_container hpass ha hc] at hevents
          cases hopen : openContainer mem level rest.isEmpty field with
          | none =>
            rw [hopen] at hevents
            simp at hevents
          | some elements =>
            rw [hopen] at hevents
            obtain ⟨i, before, after, -, hi, hsplit, rfl⟩ := flatMap_range'_split hevents
            rw [Nat.zero_add] at hi
            obtain ⟨-, hrow⟩ := containerEvents_ok (traversalEvents_ok rest) elements i (.row e)
              (hsplit ▸ List.mem_append_right _ List.mem_cons_self)
            obtain ⟨more, hmore⟩ := hrow e rfl
            have hstart := cursorStartIndex_container hskip ha (he ▸ hmore)
            rw [collect_container hpass ha hc hopen hfull hstart, Nat.zero_add]
            refine Refines.mono hleave
              (forRange_refines_from (fun t m ht => congrArg _ ht.1) hi ?_ ?_ ?_)
            · exact hfull
            · unfold containerIteration
              unfold containerEvents at hsplit
              cases hindex : checkedContainerIndex i with
              | error e' =>
                rw [hindex] at hsplit
                have hmem : Event.row e ∈ [Event.fail e'] := by
                  rw [show [Event.fail e'] = _ from hsplit]
                  exact List.mem_append_right _ List.mem_cons_self
                simp at hmem
              | ok index =>
                rw [hindex] at hsplit
                by_cases hnull : elementAt mem level elements i = 0
                · simp only [hnull, if_true] at hsplit
                  simp at hsplit
                · simp only [hnull, if_false] at hsplit
                  simp only [hnull, if_false, bind, Except.bind]
                  exact element_resumes ih hskip hroom (hnames.enter_container ha hc hdepth)
                    (container_length ha hc hdepth _) hsplit he
            · intro j t m _ hj hroom ht
              exact containerIteration_refines hplain hbelow ha hc elements hdepth j t m hroom ht
        | false =>
          rw [traversalEvents_scalar hpass ha hc] at hevents
          rw [collect_scalar hpass ha hc hfull]
          have hnames' := hnames.enter_scalar ha hc
          have hdepth' := scalar_length ha hc hdepth
          cases rest with
          | nil => exact Refines.mono hleave (leaf_resumes hskip hnames' hevents he)
          | cons next rest =>
            by_cases hklass : level.klass.isSome
            · simp only [List.isEmpty_cons, Bool.false_eq_true, if_false, hklass, if_true]
                at hevents ⊢
              exact Refines.mono hleave
                (ih field indices _ names page hskip hroom hnames' hdepth' _ _ e hevents he)
            · simp [hklass] at hevents
    · rw [traversalEvents_blocked (not_exists.mp hpasses)] at hevents
      simp at hevents

end Resume

/-! ### Reading page by page -/

/-- The row that a value becomes. -/
def Emission.toRow (entryId : Int64) (e : Emission) : ReadRow := ⟨e.value, entryId, e.indices⟩

theorem foldl_add_rows (entryId : Int64) (rows : List Emission) (out : ReadResult) :
    (rows.foldl (fun result e => result.add e.value entryId e.indices e.names) out).rows =
      out.rows ++ rows.map (Emission.toRow entryId) := by
  induction rows generalizing out with
  | nil => simp
  | cons e rows ih =>
    rw [List.foldl_cons, ih]
    simp [ReadResult.add, Emission.toRow]

theorem foldl_add_names (entryId : Int64) {names : List String} {rows : List Emission}
    (hnames : ∀ e ∈ rows, e.names = names) (hrows : rows ≠ []) :
    (rows.foldl (fun result e => result.add e.value entryId e.indices e.names)
      ({} : ReadResult)).vectorNames = names := by
  have keep : ∀ (rows : List Emission) (out : ReadResult), (∀ e ∈ rows, e.names = names) →
      out.vectorNames = names →
      (rows.foldl (fun result e => result.add e.value entryId e.indices e.names)
        out).vectorNames = names := by
    intro rows
    induction rows with
    | nil => exact fun _ _ h => h
    | cons e rows ih =>
      intro out hall hout
      refine ih _ (fun e' he' => hall e' (List.mem_cons_of_mem _ he')) ?_
      simp [ReadResult.add, hout, hall e List.mem_cons_self]
  cases rows with
  | nil => exact absurd rfl hrows
  | cons e rows =>
    refine keep rows _ (fun e' he' => hnames e' (List.mem_cons_of_mem _ he')) ?_
    simp [ReadResult.add, hnames e List.mem_cons_self]

theorem foldl_cursor_output (entryId : Int64) (rows : List Emission) (page : CursorPage) :
    (rows.foldl (CursorPage.add entryId) page).output =
      rows.foldl (fun result e => result.add e.value entryId e.indices e.names) page.output := by
  induction rows generalizing page with
  | nil => rfl
  | cons e rows ih => exact ih _

theorem foldl_cursor_last (entryId : Int64) (rows : List Emission) (e : Emission)
    (page : CursorPage) :
    ((rows ++ [e]).foldl (CursorPage.add entryId) page).lastIndices = e.indices := by
  rw [List.foldl_append]
  rfl

theorem collectDirect_eq (rootObject : Address) (levels : List PathLevel) (entryId : Int64)
    (out : ReadResult) :
    collectDirect mem rootObject levels (-1) entryId out =
      (outcome (traversalEvents mem levels rootObject [] [])).map fun rows =>
        rows.foldl (fun result e => result.add e.value entryId e.indices e.names) out := by
  have hfull : ∀ result, (directSink (-1) entryId).full result = false := fun _ => rfl
  have h := @collect_refines _ mem _ _ _ (directSink_plain (-1) entryId) levels rootObject [] [] []
    out trivial (namesOk_start _ _) rfl
  rw [feed_unbounded hfull] at h
  unfold collectDirect runTraversal
  cases hout : outcome (traversalEvents mem levels rootObject [] []) with
  | error e =>
    rw [hout] at h
    rw [h.error]
    rfl
  | ok rows =>
    rw [hout] at h
    obtain ⟨t, ht, hcarries⟩ := h.ok
    rw [ht]
    exact congrArg Except.ok hcarries.1

/-- What a cursor that is not complete has left: the events after the value it keeps. -/
structure OffsetValueCursor.Reads (mem : RootMemory) (rootObject : Address)
    (levels : List PathLevel) (entryId : Int64) (cursor : OffsetValueCursor)
    (later : List TraversalEvent) : Prop where
  rootObject_eq : cursor.rootObject = rootObject
  levels_eq : cursor.levels = levels
  entryId_eq : cursor.entryId = entryId
  open_eq : cursor.complete = false
  position :
    (cursor.previousEmitted = false ∧ traversalEvents mem levels rootObject [] [] = later) ∨
    (cursor.previousEmitted = true ∧ ∃ past e,
      traversalEvents mem levels rootObject [] [] = past ++ .row e :: later ∧
        e.indices = cursor.resumeIndices)

section Pages

variable {rootObject : Address} {levels : List PathLevel} {entryId : Int64}
variable {cursor : OffsetValueCursor} {later : List TraversalEvent}

/-- A page gives its sink what the cursor has left. -/
theorem OffsetValueCursor.Reads.runTraversal_eq
    (h : cursor.Reads mem rootObject levels entryId later) {limit : Nat} (hlimit : 1 ≤ limit) :
    runTraversal mem (cursorPageSink limit cursor.entryId cursor.resumeIndices) cursor.rootObject
        cursor.levels
        { skipPrevious := cursor.previousEmitted, output := {}, lastIndices := [] } =
      feed (cursorPageSink limit entryId cursor.resumeIndices).full (CursorPage.add entryId)
        { skipPrevious := false, output := {}, lastIndices := [] } later := by
  obtain ⟨hroot, hlevels, hentry, -, hposition⟩ := h
  rw [hroot, hlevels, hentry]
  have hrefines : Refines (Carries CursorPage.Restored levels [])
      (collectValuesRecursive mem (cursorPageSink limit entryId cursor.resumeIndices) levels
        rootObject [] ([], ⟨cursor.previousEmitted, {}, []⟩))
      (feed (cursorPageSink limit entryId cursor.resumeIndices).full (CursorPage.add entryId)
        ⟨false, {}, []⟩ later) := by
    rcases hposition with ⟨hprevious, rfl⟩ | ⟨hprevious, past, e, hevents, he⟩
    · rw [hprevious]
      exact collect_refines (cursorPageSink_plain _ _ _) levels rootObject [] [] [] _ rfl
        (namesOk_start _ _) rfl
    · rw [hprevious]
      exact resume_refines levels rootObject [] [] [] ⟨true, {}, []⟩ rfl hlimit
        (namesOk_start _ _) rfl past later e hevents he
  unfold runTraversal
  cases hfeed : feed (cursorPageSink limit entryId cursor.resumeIndices).full
      (CursorPage.add entryId) ⟨false, {}, []⟩ later with
  | error e =>
    rw [hfeed] at hrefines
    rw [hrefines.error]
    rfl
  | ok page =>
    rw [hfeed] at hrefines
    obtain ⟨t, ht, hcarries⟩ := hrefines.ok
    rw [ht]
    exact congrArg Except.ok hcarries.1

theorem OffsetValueCursor.Reads.events_ok
    (h : cursor.Reads mem rootObject levels entryId later) :
    ∀ event ∈ later, EventOk [] (levels.flatMap levelIndexNames) event := by
  intro event hevent
  have hall := @traversalEvents_ok mem levels rootObject [] []
  rw [List.nil_append] at hall
  rcases h.position with ⟨-, hevents⟩ | ⟨-, past, e, hevents, -⟩
  · exact hall event (hevents ▸ hevent)
  · refine hall event ?_
    rw [hevents]
    exact List.mem_append_right _ (List.mem_cons_of_mem _ hevent)

/-- Events without a failure or an idle step are rows. -/
theorem eq_map_rowsOf {indices : List Int} {names : List String} {events : List TraversalEvent}
    (hok : ∀ event ∈ events, EventOk indices names event) (hquiet : Quiet events) :
    events = (rowsOf events).map Event.row := by
  induction events with
  | nil => rfl
  | cons event events ih =>
    have htail := ih (fun e he => hok e (List.mem_cons_of_mem _ he))
      (fun e he => hquiet e (List.mem_cons_of_mem _ he))
    cases event with
    | row e => exact congrArg (Event.row e :: ·) htail
    | idle => exact (hok .idle List.mem_cons_self).elim
    | fail e => exact absurd List.mem_cons_self (hquiet e)

theorem rowsOf_names {indices : List Int} {names : List String} {events : List TraversalEvent}
    (hok : ∀ event ∈ events, EventOk indices names event) :
    ∀ e ∈ rowsOf events, e.names = names := by
  induction events with
  | nil => exact fun _ he => absurd he List.not_mem_nil
  | cons event events ih =>
    have htail := ih (fun e he => hok e (List.mem_cons_of_mem _ he))
    cases event with
    | row r =>
      intro e he
      rcases List.mem_cons.mp he with rfl | he
      · exact (hok _ List.mem_cons_self).2
      · exact htail e he
    | idle => exact htail
    | fail f => exact htail

/-- What one call of `ReadPage` does with the events that are left. -/
inductive PageStep (mem : RootMemory) (rootObject : Address) (levels : List PathLevel)
    (entryId : Int64) (cursor : OffsetValueCursor) (limit : Nat)
    (later : List TraversalEvent) : Prop where
  | threw {e : TraversalError} : cursor.readPage mem limit = .error e →
      outcome later = .error e → PageStep mem rootObject levels entryId cursor limit later
  | exhausted {page : ReadResult} {next : OffsetValueCursor} :
      cursor.readPage mem limit = .ok (false, page, next) → later = [] →
      PageStep mem rootObject levels entryId cursor limit later
  | page {rows : List Emission} {rest : List TraversalEvent} {page : ReadResult}
      {next : OffsetValueCursor} :
      cursor.readPage mem limit = .ok (true, page, next) →
      later = rows.map Event.row ++ rest → rows ≠ [] →
      page = rows.foldl (fun result e => result.add e.value entryId e.indices e.names) {} →
      (next.Reads mem rootObject levels entryId rest ∨ (next.complete = true ∧ rest = [])) →
      PageStep mem rootObject levels entryId cursor limit later

/-- The cursor after a page with rows. -/
def OffsetValueCursor.after (cursor : OffsetValueCursor) (limit : Nat) (page : CursorPage) :
    OffsetValueCursor :=
  { cursor with
    resumeIndices := page.lastIndices
    previousEmitted := true
    complete := !decide (limit ≤ page.output.rows.length) }

theorem OffsetValueCursor.readPage_open (hopen : cursor.complete = false) {limit : Nat}
    (hlimit : 1 ≤ limit) :
    cursor.readPage mem limit =
      match runTraversal mem (cursorPageSink limit cursor.entryId cursor.resumeIndices)
        cursor.rootObject cursor.levels ⟨cursor.previousEmitted, {}, []⟩ with
      | .error e => .error e
      | .ok page =>
          if page.output.rows.isEmpty then .ok (false, page.output, { cursor with complete := true })
          else .ok (true, page.output, cursor.after limit page) := by
  unfold OffsetValueCursor.readPage
  rw [if_neg (by omega), if_neg (by simp [hopen])]
  simp only [hopen, Bool.false_or]
  cases runTraversal mem (cursorPageSink limit cursor.entryId cursor.resumeIndices)
    cursor.rootObject cursor.levels ⟨cursor.previousEmitted, {}, []⟩ <;> rfl

/-- A page that ends with a value leaves the cursor behind that value. -/
theorem OffsetValueCursor.Reads.after {past rest : List TraversalEvent}
    (h : cursor.Reads mem rootObject levels entryId (past ++ rest)) {rows : List Emission}
    {e : Emission} (hpast : past = rows.map Event.row ++ [.row e]) {limit : Nat}
    {page : CursorPage} (hlast : page.lastIndices = e.indices)
    (hfull : limit ≤ page.output.rows.length) :
    (cursor.after limit page).Reads mem rootObject levels entryId rest where
  rootObject_eq := h.rootObject_eq
  levels_eq := h.levels_eq
  entryId_eq := h.entryId_eq
  open_eq := by simp [OffsetValueCursor.after, hfull]
  position := by
    refine .inr ⟨rfl, ?_⟩
    rcases h.position with ⟨-, hevents⟩ | ⟨-, before, e', hevents, -⟩
    · exact ⟨rows.map Event.row, e, by rw [hevents, hpast]; simp, hlast.symm⟩
    · exact ⟨before ++ .row e' :: rows.map Event.row, e, by rw [hevents, hpast]; simp, hlast.symm⟩

theorem OffsetValueCursor.Reads.pageStep (h : cursor.Reads mem rootObject levels entryId later)
    {limit : Nat} (hlimit : 1 ≤ limit) :
    PageStep mem rootObject levels entryId cursor limit later := by
  have hread := @OffsetValueCursor.readPage_open mem cursor h.open_eq limit hlimit
  rw [h.runTraversal_eq hlimit] at hread
  have hgrows : ∀ (page : CursorPage) (e : Emission),
      (CursorPage.add entryId page e).output.rows.length = page.output.rows.length + 1 :=
    fun page e => by simp [CursorPage.add, ReadResult.add]
  rcases @feed_split _ _ _ (cursorPageSink limit entryId cursor.resumeIndices).full
      (CursorPage.add entryId) (fun page => page.output.rows.length) limit (fun _ => rfl)
      hgrows later ⟨false, {}, []⟩ with ⟨e, hfeed, hout⟩ | ⟨past, rest, rfl, hquiet, hfeed, hstop⟩
  · rw [hfeed] at hread
    exact .threw hread hout
  · rw [hfeed] at hread
    have hpast := eq_map_rowsOf
      (fun event he => h.events_ok event (List.mem_append_left _ he)) hquiet
    have houtput := foldl_cursor_output entryId (rowsOf past) ⟨false, {}, []⟩
    have hrows := foldl_add_rows entryId (rowsOf past) {}
    dsimp only at hread houtput
    rw [List.nil_append] at hrows
    cases hcase : (rowsOf past).reverse with
    | nil =>
      have hnil : rowsOf past = [] := List.reverse_eq_nil_iff.mp hcase
      rw [hnil] at hread hpast hstop
      refine .exhausted hread ?_
      have hrest : rest = [] := hstop.resolve_right (by simp; omega)
      rw [hpast, hrest]
      rfl
    | cons e rows =>
      have hsnoc : rowsOf past = rows.reverse ++ [e] := by
        rw [← List.reverse_reverse (rowsOf past), hcase, List.reverse_cons]
      have hlast := foldl_cursor_last entryId rows.reverse e ⟨false, {}, []⟩
      rw [← hsnoc] at hlast
      have hlength : ((rowsOf past).foldl (CursorPage.add entryId)
          ⟨false, {}, []⟩).output.rows.length = (rowsOf past).length := by
        rw [houtput, hrows, List.length_map]
      have hne : ((rowsOf past).foldl (CursorPage.add entryId)
          ⟨false, {}, []⟩).output.rows.isEmpty = false := by
        rw [← Bool.not_eq_true, List.isEmpty_iff_length_eq_zero, hlength, hsnoc]
        simp
      rw [hne] at hread
      refine .page hread (by rw [← hpast]) (by rw [hsnoc]; simp) houtput ?_
      by_cases hfull : limit ≤ (rowsOf past).length
      · have hsplit : past = rows.reverse.map Event.row ++ [.row e] := by
          rw [hpast, hsnoc, List.map_append]
          rfl
        exact .inl (h.after hsplit hlast (hlength ▸ hfull))
      · refine .inr ⟨?_, hstop.resolve_right (by simpa using hfull)⟩
        simp only [OffsetValueCursor.after, hlength, hfull, decide_false, Bool.not_false]

theorem readPages_complete (h : cursor.complete = true) (calls : Nat) {sizes : Nat → Nat}
    (hsizes : ∀ k, 1 ≤ sizes k) : readPages mem (calls + 1) sizes cursor = ([], .exhausted) := by
  have hzero := hsizes 0
  simp only [readPages, OffsetValueCursor.readPage, h, if_true]
  rw [if_neg (by omega)]

/-- Reading all pages of what a cursor has left. -/
theorem OffsetValueCursor.Reads.readPages_eq
    (h : cursor.Reads mem rootObject levels entryId later) {sizes : Nat → Nat}
    (hsizes : ∀ k, 1 ≤ sizes k) :
    ∃ calls pages ending, readPages mem calls sizes cursor = (pages, ending) ∧
      match outcome later with
      | .ok rows => ending = .exhausted ∧
          pages.flatMap (fun page => page.rows) = rows.map (Emission.toRow entryId) ∧
          ∀ page ∈ pages, page.rows ≠ [] ∧ page.vectorNames = levels.flatMap levelIndexNames
      | .error e => ending = .threw e := by
  induction hn : later.length using Nat.strong_induction_on generalizing later cursor sizes with
  | _ n ih =>
    subst hn
    cases h.pageStep (hsizes 0) with
    | @threw e hread hout =>
      refine ⟨1, [], .threw e, by simp only [readPages, hread], ?_⟩
      rw [hout]
    | exhausted hread hlater =>
      refine ⟨1, [], .exhausted, by simp only [readPages, hread], ?_⟩
      rw [hlater]
      exact ⟨rfl, rfl, fun _ hp => absurd hp List.not_mem_nil⟩
    | @page rows rest page next hread hlater hrows hpage hnext =>
      have hquiet : Quiet (rows.map Event.row : List TraversalEvent) := by
        intro e he
        simp at he
      have hrowsOf : rowsOf (rows.map Event.row : List TraversalEvent) = rows := by
        clear hlater hrows hpage hquiet
        induction rows with
        | nil => rfl
        | cons e rows ih => exact congrArg (e :: ·) (ih)
      have hpageRows : page.rows = rows.map (Emission.toRow entryId) := by
        rw [hpage, foldl_add_rows]
        rfl
      have hpageNames : page.vectorNames = levels.flatMap levelIndexNames := by
        rw [hpage]
        refine foldl_add_names entryId (fun e he => ?_) hrows
        refine (h.events_ok (.row e) ?_).2
        rw [hlater]
        exact List.mem_append_left _ (List.mem_map_of_mem he)
      have hlater' := @outcome_append _ _ _ rest hquiet
      rw [← hlater, hrowsOf] at hlater'
      rw [hlater']
      obtain ⟨calls, pages, ending, hcalls, hending⟩ : ∃ calls pages ending,
          readPages mem calls (fun k => sizes (k + 1)) next = (pages, ending) ∧
          match outcome rest with
          | .ok rows => ending = .exhausted ∧
              pages.flatMap (fun page => page.rows) = rows.map (Emission.toRow entryId) ∧
              ∀ page ∈ pages,
                page.rows ≠ [] ∧ page.vectorNames = levels.flatMap levelIndexNames
          | .error e => ending = .threw e := by
        rcases hnext with hnext | ⟨hcomplete, rfl⟩
        · refine ih rest.length ?_ hnext (fun k => hsizes (k + 1)) rfl
          rw [hlater, List.length_append, List.length_map]
          have := List.length_pos_of_ne_nil hrows
          omega
        · exact ⟨1, [], .exhausted, readPages_complete hcomplete 0 (fun k => hsizes (k + 1)),
            rfl, rfl, fun _ hp => absurd hp List.not_mem_nil⟩
      refine ⟨calls + 1, page :: pages, ending, by simp only [readPages, hread, hcalls], ?_⟩
      cases hout : outcome rest with
      | error e =>
        rw [hout] at hending
        exact hending
      | ok more =>
        rw [hout] at hending
        obtain ⟨hexhausted, hflat, hnames⟩ := hending
        refine ⟨hexhausted, ?_, ?_⟩
        · rw [List.flatMap_cons, hpageRows, hflat, List.map_append]
        · intro p hp
          rcases List.mem_cons.mp hp with rfl | hp
          · exact ⟨by rw [hpageRows]; simpa using hrows, hpageNames⟩
          · exact hnames p hp

/-- The events that an opened cursor has left are all of the object's. -/
theorem openEntry_reads (hcomplete : (OffsetValueCursor.openEntry rootObject levels
    entryId).complete = false) :
    (OffsetValueCursor.openEntry rootObject levels entryId).Reads mem rootObject levels entryId
      (traversalEvents mem levels rootObject [] []) where
  rootObject_eq := rfl
  levels_eq := rfl
  entryId_eq := rfl
  open_eq := hcomplete
  position := .inl ⟨rfl, rfl⟩

theorem traversalEvents_of_complete (hcomplete : (OffsetValueCursor.openEntry rootObject levels
    entryId).complete = true) : traversalEvents mem levels rootObject [] [] = [] := by
  cases levels with
  | nil => rfl
  | cons level rest =>
    have hnull : rootObject = 0 := by simpa [OffsetValueCursor.openEntry] using hcomplete
    simp only [traversalEvents, hnull, if_true]

/-- **Paged traversal is full traversal.** Whatever the object, the levels and the page
    sizes, reading page by page comes to an end: with the values of the whole entry, in
    order, or with the error that reading the whole entry meets, which is never one of
    restoring the cursor. -/
theorem readPages_eq_collectDirect (mem : RootMemory) (rootObject : Address)
    (levels : List PathLevel) (entryId : Int64) (sizes : Nat → Nat) (hsizes : ∀ k, 1 ≤ sizes k) :
    ∃ calls pages ending,
      readPages mem calls sizes (.openEntry rootObject levels entryId) = (pages, ending) ∧
      match collectDirect mem rootObject levels (-1) entryId {} with
      | .ok result => ending = .exhausted ∧
          pages.flatMap (fun page => page.rows) = result.rows ∧
          ∀ page ∈ pages, page.vectorNames = result.vectorNames
      | .error e => ending = .threw e ∧ e.ofCursor = false := by
  have hevents := @traversalEvents_ok mem levels rootObject [] []
  rw [List.nil_append] at hevents
  rw [collectDirect_eq]
  obtain ⟨calls, pages, ending, hread, hending⟩ : ∃ calls pages ending,
      readPages mem calls sizes (.openEntry rootObject levels entryId) = (pages, ending) ∧
      match outcome (traversalEvents mem levels rootObject [] []) with
      | .ok rows => ending = .exhausted ∧
          pages.flatMap (fun page => page.rows) = rows.map (Emission.toRow entryId) ∧
          ∀ page ∈ pages, page.rows ≠ [] ∧ page.vectorNames = levels.flatMap levelIndexNames
      | .error e => ending = .threw e := by
    cases hcomplete : (OffsetValueCursor.openEntry rootObject levels entryId).complete with
    | false => exact (openEntry_reads hcomplete).readPages_eq hsizes
    | true =>
      rw [traversalEvents_of_complete hcomplete]
      exact ⟨1, [], .exhausted, readPages_complete hcomplete 0 hsizes, rfl, rfl,
        fun _ hp => absurd hp List.not_mem_nil⟩
  refine ⟨calls, pages, ending, hread, ?_⟩
  cases hout : outcome (traversalEvents mem levels rootObject [] []) with
  | error e =>
    rw [hout] at hending
    exact ⟨hending, hevents _ (mem_of_outcome_error hout)⟩
  | ok rows =>
    rw [hout] at hending
    obtain ⟨hexhausted, hflat, hpages⟩ := hending
    refine ⟨hexhausted, ?_, ?_⟩
    · rw [foldl_add_rows, hflat]
      rfl
    · intro page hpage
      obtain ⟨hne, hnames⟩ := hpages page hpage
      have hrows : rows ≠ [] := by
        rintro rfl
        exact hne (List.flatMap_eq_nil_iff.mp hflat page hpage)
      have hquiet : Quiet (traversalEvents mem levels rootObject [] []) := by
        by_contra hnot
        obtain ⟨e, he⟩ := outcome_error_of_not_quiet hnot
        exact absurd (hout.symm.trans he) (by simp)
      have hrowsOf : rows = rowsOf (traversalEvents mem levels rootObject [] []) :=
        Except.ok.inj (hout.symm.trans (outcome_of_quiet hquiet))
      rw [hnames, foldl_add_names entryId (fun e he => rowsOf_names hevents e (hrowsOf ▸ he)) hrows]

/-- A page that is large enough has all values of the object. -/
theorem readPage_whole {result : ReadResult} (hrows : result.rows ≠ [])
    (h : collectDirect mem rootObject levels (-1) entryId {} = .ok result) :
    ∃ (later : List TraversalEvent) (cursor next : OffsetValueCursor),
      cursor.Reads mem rootObject levels entryId later ∧
        cursor.readPage mem (result.rows.length + 1) = .ok (true, result, next) := by
  rw [collectDirect_eq] at h
  cases hout : outcome (traversalEvents mem levels rootObject [] []) with
  | error e =>
    rw [hout] at h
    cases h
  | ok rows =>
    rw [hout] at h
    obtain rfl : rows.foldl
        (fun result e => result.add e.value entryId e.indices e.names) {} = result :=
      Except.ok.inj h
    have hlength : (rows.foldl (fun result e => result.add e.value entryId e.indices e.names)
        ({} : ReadResult)).rows.length = rows.length := by
      rw [foldl_add_rows, List.nil_append, List.length_map]
    have hopen : (OffsetValueCursor.openEntry rootObject levels entryId).complete = false := by
      cases hcomplete : (OffsetValueCursor.openEntry rootObject levels entryId).complete with
      | false => rfl
      | true =>
        rw [traversalEvents_of_complete hcomplete] at hout
        cases hout
        exact absurd rfl hrows
    have hreads := @openEntry_reads mem _ _ _ hopen
    have hread := @OffsetValueCursor.readPage_open mem _ hopen (rows.length + 1) (by omega)
    rw [hreads.runTraversal_eq (Nat.le_add_left 1 rows.length)] at hread
    -- The page never fills up, so it takes all events.
    rcases @feed_split _ _ _ (cursorPageSink (rows.length + 1) entryId
        (OffsetValueCursor.openEntry rootObject levels entryId).resumeIndices).full
        (CursorPage.add entryId) (fun page => page.output.rows.length) (rows.length + 1)
        (fun _ => rfl) (fun page e => by simp [CursorPage.add, ReadResult.add])
        (traversalEvents mem levels rootObject [] []) ⟨false, {}, []⟩ with
      ⟨e, -, herror⟩ | ⟨past, rest, hsplit, hquiet, hfeed, hstop⟩
    · cases hout.symm.trans herror
    · have hpast : (rowsOf past).length ≤ rows.length := by
        have hwhole := hsplit ▸ hout
        rw [outcome_append hquiet] at hwhole
        cases hrest : outcome rest with
        | error e =>
          rw [hrest] at hwhole
          cases hwhole
        | ok more =>
          rw [hrest] at hwhole
          rw [← Except.ok.inj hwhole, List.length_append]
          omega
      obtain rfl : rest = [] := hstop.resolve_right (by
        intro hfull
        have hfull : rows.length + 1 ≤ 0 + (rowsOf past).length := hfull
        omega)
      rw [List.append_nil] at hsplit
      rw [hsplit, outcome_of_quiet hquiet] at hout
      obtain rfl := Except.ok.inj hout
      rw [hfeed] at hread
      dsimp only at hread
      rw [foldl_cursor_output, if_neg (by simpa using hrows)] at hread
      rw [hlength]
      exact ⟨_, _, _, hreads, hread⟩

end Pages

/-- A vector of three elements, the second one missing; a value is its address. -/
def gridMemory : RootMemory where
  pointer _ := 0
  elements _ _ := [200, 0, 300]
  primitive pointer _ := .ok (.signed (Int64.ofInt pointer))
  string _ _ := .ok ""
  hasDictionary _ := true
  hasCollectionProxy _ := true
  classSize _ := 16
  trimType type := type
  extractInnerType _ := "Hit"
  isPrimitiveType type := type == "Int_t"
  isStringType _ := false
  isPointerType _ := false
  isContiguousVectorType _ := true
  primitiveTypeSize _ := 4
  contiguousVectorPathEnabled := false

/-- `hits/adc` with `Int_t adc[2][2]`. -/
def gridLevels : List PathLevel :=
  [{ name := "hits", type := "vector<Hit>", offsetInParent := 8, isPrimitive := false
     isString := false, isPointer := false, isContainer := true, fixedArray := none
     elementSize := 24, klass := some 1, elementClass := some 2 },
   { name := "adc", type := "Int_t", offsetInParent := 4, isPrimitive := true
     isString := false, isPointer := false, isContainer := false
     fixedArray := resolveFixedArray true [2, 2] .none
     elementSize := 4, klass := none, elementClass := none }]

theorem readPages_grid :
    ∃ calls pages, readPages gridMemory calls (fun _ => 3) (.openEntry 100 gridLevels 7) =
        (pages, .exhausted) ∧
      pages.flatMap (fun page => page.rows) =
        [⟨.number (.signed 204), 7, [0, 0, 0]⟩, ⟨.number (.signed 208), 7, [0, 0, 1]⟩,
          ⟨.number (.signed 212), 7, [0, 1, 0]⟩, ⟨.number (.signed 216), 7, [0, 1, 1]⟩,
          ⟨.number (.signed 304), 7, [2, 0, 0]⟩, ⟨.number (.signed 308), 7, [2, 0, 1]⟩,
          ⟨.number (.signed 312), 7, [2, 1, 0]⟩, ⟨.number (.signed 316), 7, [2, 1, 1]⟩] := by
  obtain ⟨calls, pages, ending, hread, hending⟩ :=
    readPages_eq_collectDirect gridMemory 100 gridLevels 7 (fun _ => 3) (fun _ => by decide)
  obtain ⟨rfl, hrows, -⟩ := hending
  exact ⟨calls, pages, hread, hrows⟩

end RootLake

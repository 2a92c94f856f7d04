import RootLake.Reader.Cursor

/-!
# What a traversal emits

`traversalEvents` lists the values under an object in the order of the path's loops, with
their full index tuples, and the errors on the way. A traversal gives its sink these
events until it is full: as they are when the sink starts every loop at zero
(`collect_refines`), and from the one after the value it is moved back to when the sink
is a cursor's (`resume_refines`).
-/

namespace RootLake

open Feed Batch

/-- A value with its position. -/
structure Emission where
  value : SinkValue
  indices : List Int
  names : List String
  deriving DecidableEq, Repr

abbrev TraversalEvent := Event Emission TraversalError

/-- The index names that a level adds. -/
def levelIndexNames (level : PathLevel) : List String :=
  match level.fixedArray with
  | some array => arrayIndexNames level.name array.dimensions
  | none => if level.isContainer then [level.name ++ "_idx"] else []

def leafEvents (leaf : Option (Except TraversalError SinkValue)) (indices : List Int)
    (names : List String) : List TraversalEvent :=
  match leaf with
  | none => []
  | some (.error e) => [.fail e]
  | some (.ok value) => [.row ⟨value, indices, names⟩]

section Events

variable (mem : RootMemory)

def traversalEvents : List PathLevel → Address → List Int → List String → List TraversalEvent
  | [], _, _, _ => []
  | level :: rest, current, indices, names =>
      if current = 0 then []
      else
        let field := fieldAddress mem level current
        let names := names ++ levelIndexNames level
        if level.isPointer && field = 0 then []
        else
          match level.fixedArray with
          | some array =>
              (List.range' 0 array.length).flatMap fun (i : Nat) =>
                let element := field + i * level.elementSize
                match pushArrayCoordinates i array.dimensions indices with
                | .error e => [.fail e]
                | .ok indices =>
                    if rest.isEmpty then leafEvents (arrayLeaf mem level element) indices names
                    else traversalEvents rest element indices names
          | none =>
              if level.isContainer then
                match openContainer mem level rest.isEmpty field with
                | none => []
                | some elements =>
                    (List.range' 0 elements.length).flatMap fun i =>
                      match checkedContainerIndex i with
                      | .error e => [.fail e]
                      | .ok containerIndex =>
                          let element := elementAt mem level elements i
                          if element = 0 then []
                          else if rest.isEmpty then
                            leafEvents (containerLeaf mem (mem.extractInnerType level.type) element)
                              (indices ++ [containerIndex]) names
                          else traversalEvents rest element (indices ++ [containerIndex]) names
              else if rest.isEmpty then leafEvents (fieldLeaf mem level field) indices names
              else if level.klass.isSome then traversalEvents rest field indices names
              else []

end Events

-- Below an object that is not there nothing happens.
example (mem : RootMemory) (level : PathLevel) (rest : List PathLevel) :
    traversalEvents mem (level :: rest) 0 [] [] = [] := by
  simp only [traversalEvents, if_true]

/-! ### Coordinates -/

/-- The flat position of coordinates, the last dimension running fastest. -/
def flatPosition : List Nat → List Int → Nat
  | [], _ => 0
  | _ :: _, [] => 0
  | _ :: dimensions, c :: coordinates =>
      c.toNat * dimensions.prod + flatPosition dimensions coordinates

theorem arrayCoordinates_spec {dimensions : List Nat} {flatIndex left : Nat}
    {coordinates : List Int}
    (h : arrayCoordinates dimensions flatIndex = .ok (coordinates, left)) :
    List.Forall₂ (fun (d : Nat) (c : Int) => 0 ≤ c ∧ c.toNat < d) dimensions coordinates ∧
      flatIndex = left * dimensions.prod + flatPosition dimensions coordinates := by
  induction dimensions generalizing coordinates left with
  | nil =>
    simp only [arrayCoordinates, Except.ok.injEq, Prod.mk.injEq] at h
    obtain ⟨rfl, rfl⟩ := h
    exact ⟨.nil, by simp [flatPosition]⟩
  | cons d ds ih =>
    simp only [arrayCoordinates] at h
    cases hds : arrayCoordinates ds flatIndex with
    | error e => rw [hds] at h; exact absurd h (by simp [bind, Except.bind])
    | ok result =>
      obtain ⟨cs, flat⟩ := result
      rw [hds] at h
      simp only [bind, Except.bind] at h
      split_ifs at h with hzero hbig
      simp only [Except.ok.injEq, Prod.mk.injEq] at h
      obtain ⟨rfl, rfl⟩ := h
      obtain ⟨hall, hflat⟩ := ih hds
      refine ⟨.cons ⟨Int.natCast_nonneg _, ?_⟩ hall, ?_⟩
      · rw [Int.toNat_natCast]
        exact Nat.mod_lt _ (Nat.pos_of_ne_zero hzero)
      · rw [hflat, flatPosition, Int.toNat_natCast, List.prod_cons, ← Nat.add_assoc,
          ← Nat.mul_assoc, ← Nat.add_mul, Nat.div_add_mod']

theorem restoreArrayIndex_eq {dimensions : List Nat} {coordinates more : List Int}
    (h : List.Forall₂ (fun (d : Nat) (c : Int) => 0 ≤ c ∧ c.toNat < d) dimensions coordinates)
    (hpos : ∀ d ∈ dimensions, 0 < d) (index : Nat)
    (hbound : index * dimensions.prod + flatPosition dimensions coordinates < 2 ^ 64) :
    restoreArrayIndex dimensions (coordinates ++ more) index =
      .ok (index * dimensions.prod + flatPosition dimensions coordinates) := by
  induction h generalizing index with
  | nil => simp [restoreArrayIndex, flatPosition]
  | @cons d c ds cs hc hall ih =>
    obtain ⟨hc0, hcd⟩ := hc
    have hds : ∀ e ∈ ds, 0 < e := fun e he => hpos e (List.mem_cons_of_mem _ he)
    have hprod : 0 < ds.prod := List.prod_pos hds
    have hnext : index * (d :: ds).prod + flatPosition (d :: ds) (c :: cs) =
        (index * d + c.toNat) * ds.prod + flatPosition ds cs := by
      rw [List.prod_cons, flatPosition]
      ring
    rw [hnext] at hbound ⊢
    have hle : index * d + c.toNat ≤ (index * d + c.toNat) * ds.prod :=
      Nat.le_mul_of_pos_right _ hprod
    have hfit : index ≤ (2 ^ 64 - 1 - c.toNat) / d := by
      rw [Nat.le_div_iff_mul_le (by omega)]
      omega
    have hguard : (decide (c < 0) || decide (d = 0) || decide (c.toNat ≥ d) ||
        decide (index > (2 ^ 64 - 1 - c.toNat) / d)) = false := by
      simp only [Bool.or_eq_false_iff, decide_eq_false_iff_not]
      exact ⟨⟨⟨by omega, by omega⟩, by omega⟩, by omega⟩
    rw [List.cons_append, restoreArrayIndex, hguard]
    exact ih hds _ hbound

/-- The coordinates of an element, appended to the indices above it. -/
theorem pushArrayCoordinates_spec (array : FixedArray) {i : Nat} (hi : i < array.length)
    {indices indices' : List Int}
    (h : pushArrayCoordinates i array.dimensions indices = .ok indices') :
    ∃ coordinates, indices' = indices ++ coordinates ∧
      List.Forall₂ (fun (d : Nat) (c : Int) => 0 ≤ c ∧ c.toNat < d) array.dimensions coordinates ∧
      flatPosition array.dimensions coordinates = i := by
  unfold pushArrayCoordinates at h
  rw [if_neg array.nonempty] at h
  cases hc : arrayCoordinates array.dimensions i with
  | error e => rw [hc] at h; exact absurd h (by simp [Except.map])
  | ok result =>
    obtain ⟨coordinates, left⟩ := result
    rw [hc] at h
    simp only [Except.map, Except.ok.injEq] at h
    obtain ⟨hall, hflat⟩ := arrayCoordinates_spec hc
    refine ⟨coordinates, h.symm, hall, ?_⟩
    have hlt : i < array.dimensions.prod := lt_of_lt_of_le hi array.bounded
    have hleft : left = 0 := by
      by_contra hne
      have : array.dimensions.prod ≤ left * array.dimensions.prod :=
        Nat.le_mul_of_pos_left _ (Nat.pos_of_ne_zero hne)
      omega
    rw [hleft] at hflat
    omega

/-! ### Index names -/

/-- Between two levels the names are those of the levels above and of a beginning of the
    levels below: the names a level has added stay when the traversal leaves it. -/
def NamesOk (levels : List PathLevel) (above names : List String) : Prop :=
  ∃ j, names = above ++ (levels.take j).flatMap levelIndexNames

theorem namesOk_nil {above names : List String} (h : NamesOk [] above names) :
    names = above := by
  obtain ⟨j, rfl⟩ := h
  simp

theorem NamesOk.leave {level : PathLevel} {rest : List PathLevel} {above names : List String}
    (h : NamesOk rest (above ++ levelIndexNames level) names) :
    NamesOk (level :: rest) above names := by
  obtain ⟨j, rfl⟩ := h
  exact ⟨j + 1, by simp⟩

/-- Names that are appended while some are missing. -/
theorem foldl_append_missing (target : Nat) (added names : List String) :
    added.foldl (fun names next => if names.length < target then names ++ [next] else names)
      names = names ++ added.take (target - names.length) := by
  induction added generalizing names with
  | nil => simp
  | cons name added ih =>
    rw [List.foldl_cons, ih]
    by_cases h : names.length < target
    · have hsub : target - names.length = (target - (names.length + 1)) + 1 := by omega
      rw [if_pos h, List.length_append, List.length_singleton, hsub, List.take_succ_cons,
        List.append_assoc, List.singleton_append]
    · have hsub : target - names.length = 0 := by omega
      rw [if_neg h, hsub, List.take_zero, List.take_zero]

theorem arrayIndexNames_length (name : String) {dimensions : List Nat} (h : dimensions ≠ []) :
    (arrayIndexNames name dimensions).length = dimensions.length := by
  have hpos := List.length_pos_of_ne_nil h
  unfold arrayIndexNames
  split_ifs with hone
  · simp only [List.length_singleton]
    omega
  · simp

theorem levelIndexNames_array {level : PathLevel} {array : FixedArray}
    (h : level.fixedArray = some array) :
    levelIndexNames level = arrayIndexNames level.name array.dimensions := by
  simp only [levelIndexNames, h]

theorem levelIndexNames_container {level : PathLevel} (h : level.fixedArray = none)
    (hc : level.isContainer = true) : levelIndexNames level = [level.name ++ "_idx"] := by
  simp only [levelIndexNames, h, hc, if_true]

theorem levelIndexNames_scalar {level : PathLevel} (h : level.fixedArray = none)
    (hc : level.isContainer = false) : levelIndexNames level = [] := by
  simp only [levelIndexNames, h, hc, Bool.false_eq_true, if_false]

section Enter

variable {level : PathLevel} {rest : List PathLevel} {above names : List String}

/-- The names at a level are the ones above, or already include the level's own. -/
theorem NamesOk.enter_cases (h : NamesOk (level :: rest) above names) :
    names = above ∨ NamesOk rest (above ++ levelIndexNames level) names := by
  obtain ⟨j, rfl⟩ := h
  cases j with
  | zero => exact .inl (by simp)
  | succ j => exact .inr ⟨j, by simp⟩

theorem namesOk_start (levels : List PathLevel) (above : List String) :
    NamesOk levels above above := ⟨0, by simp⟩

theorem NamesOk.length_le (h : NamesOk rest (above ++ levelIndexNames level) names) :
    above.length + (levelIndexNames level).length ≤ names.length := by
  obtain ⟨j, rfl⟩ := h
  simp only [List.length_append]
  omega

theorem NamesOk.enter_array (h : NamesOk (level :: rest) above names) {array : FixedArray}
    (ha : level.fixedArray = some array) {depth : Nat} (hdepth : above.length = depth) :
    NamesOk rest (above ++ levelIndexNames level)
      (appendArrayIndexNames level.name array.dimensions depth names) := by
  have hlength := arrayIndexNames_length level.name array.nonempty
  have hpos := List.length_pos_of_ne_nil array.nonempty
  have hrank : (if array.dimensions.length ≤ 1 then 1 else array.dimensions.length) =
      array.dimensions.length := by
    split_ifs <;> omega
  unfold appendArrayIndexNames
  rw [hrank, foldl_append_missing]
  rcases h.enter_cases with rfl | hin
  · rw [levelIndexNames_array ha, List.take_of_length_le (by omega)]
    exact namesOk_start _ _
  · have hle := hin.length_le
    rw [levelIndexNames_array ha, hlength] at hle
    rw [show depth + array.dimensions.length - names.length = 0 by omega, List.take_zero,
      List.append_nil]
    exact hin

theorem NamesOk.enter_container (h : NamesOk (level :: rest) above names)
    (ha : level.fixedArray = none) (hc : level.isContainer = true) {depth : Nat}
    (hdepth : above.length = depth) :
    NamesOk rest (above ++ levelIndexNames level)
      (if names.length < depth + 1 then names ++ [level.name ++ "_idx"] else names) := by
  rcases h.enter_cases with rfl | hin
  · rw [if_pos (by omega), levelIndexNames_container ha hc]
    exact namesOk_start _ _
  · have hle := hin.length_le
    rw [levelIndexNames_container ha hc, List.length_singleton] at hle
    rw [if_neg (by omega)]
    exact hin

theorem NamesOk.enter_scalar (h : NamesOk (level :: rest) above names)
    (ha : level.fixedArray = none) (hc : level.isContainer = false) :
    NamesOk rest (above ++ levelIndexNames level) names := by
  rcases h.enter_cases with rfl | hin
  · rw [levelIndexNames_scalar ha hc, List.append_nil]
    exact namesOk_start _ _
  · exact hin

end Enter

/-! ### A traversal without a position to return to -/

/-- A sink in the states `P`: loops start at zero, and values are read and added. -/
structure Plain {σ : Type} (sink : Sink σ) (P : σ → Prop) (add : σ → Emission → σ) : Prop where
  start : ∀ {s}, P s → ∀ level indices, sink.startIndex s level indices = .ok 0
  value : ∀ {s}, P s → ∀ read indices names, sink.value s read indices names =
    read.map fun value => add s ⟨value, indices, names⟩
  keeps : ∀ {s}, P s → ∀ emission, P (add s emission)

/-- How the traversal's state stands for the consumer of the events. -/
def Carries {σ : Type} (P : σ → Prop) (levels : List PathLevel) (above : List String)
    (t : TraversalState σ) (s : σ) : Prop :=
  t.2 = s ∧ NamesOk levels above t.1 ∧ P s

section Collect

variable {σ : Type} {mem : RootMemory} {sink : Sink σ} {P : σ → Prop} {add : σ → Emission → σ}

theorem leaf_refines (h : Plain sink P add) (leaf : Option (Except TraversalError SinkValue))
    (indices : List Int) {above names : List String} {s : σ} (hs : P s)
    (hroom : sink.full s = false) (hnames : NamesOk [] above names) :
    Refines (Carries P [] above) (sink.leaf s leaf indices names)
      (feed sink.full add s (leafEvents leaf indices above)) := by
  obtain rfl := namesOk_nil hnames
  cases leaf with
  | none => exact ⟨rfl, hnames, hs⟩
  | some read =>
    simp only [Sink.leaf, h.value hs]
    cases read with
    | error e =>
      rw [leafEvents, feed_fail hroom]
      exact rfl
    | ok value =>
      rw [leafEvents, feed_row hroom, feed_nil]
      exact ⟨rfl, hnames, h.keeps hs _⟩

/-- What is known of the levels below a loop. -/
def BelowRefines (mem : RootMemory) (sink : Sink σ) (P : σ → Prop) (add : σ → Emission → σ)
    (rest : List PathLevel) : Prop :=
  ∀ (current : Address) (indices : List Int) (above names : List String) (s : σ), P s →
    NamesOk rest above names → above.length = indices.length →
    Refines (Carries P rest above)
      (collectValuesRecursive mem sink rest current indices (names, s))
      (feed sink.full add s (traversalEvents mem rest current indices above))

/-- What the traversal does with an element: its value at the end of the path, else the
    levels below. -/
theorem element_refines (h : Plain sink P add) {rest : List PathLevel}
    (ih : BelowRefines mem sink P add rest)
    (leaf : Option (Except TraversalError SinkValue)) (element : Address) {indices : List Int}
    {above names : List String} {s : σ} (hs : P s) (hroom : sink.full s = false)
    (hnames : NamesOk rest above names) (hdepth : above.length = indices.length) :
    Refines (Carries P rest above)
      (if rest.isEmpty then sink.leaf s leaf indices names
        else collectValuesRecursive mem sink rest element indices (names, s))
      (feed sink.full add s
        (if rest.isEmpty then leafEvents leaf indices above
          else traversalEvents mem rest element indices above)) := by
  cases rest with
  | nil => exact leaf_refines h leaf indices hs hroom hnames
  | cons next rest => exact ih element indices above names s hs hnames hdepth

/-- One iteration over a fixed array. -/
def arrayIteration (mem : RootMemory) (sink : Sink σ) (level : PathLevel)
    (rest : List PathLevel) (array : FixedArray) (field : Address) (indices : List Int) (i : Nat)
    (t : TraversalState σ) : Except TraversalError (TraversalState σ) := do
  let indices ← pushArrayCoordinates i array.dimensions indices
  if rest.isEmpty then
    sink.leaf t.2 (arrayLeaf mem level (field + i * level.elementSize)) indices t.1
  else collectValuesRecursive mem sink rest (field + i * level.elementSize) indices (t.1, t.2)

/-- The events of one element of a fixed array. -/
def arrayEvents (mem : RootMemory) (level : PathLevel) (rest : List PathLevel)
    (array : FixedArray) (field : Address) (indices : List Int) (names : List String) (i : Nat) :
    List TraversalEvent :=
  match pushArrayCoordinates i array.dimensions indices with
  | .error e => [.fail e]
  | .ok indices =>
      if rest.isEmpty then
        leafEvents (arrayLeaf mem level (field + i * level.elementSize)) indices names
      else traversalEvents mem rest (field + i * level.elementSize) indices names

/-- One iteration over a container. -/
def containerIteration (mem : RootMemory) (sink : Sink σ) (level : PathLevel)
    (rest : List PathLevel) (elements : List Address) (indices : List Int) (i : Nat)
    (t : TraversalState σ) : Except TraversalError (TraversalState σ) := do
  let containerIndex ← checkedContainerIndex i
  if elementAt mem level elements i = 0 then .ok (t.1, t.2)
  else if rest.isEmpty then
    sink.leaf t.2 (containerLeaf mem (mem.extractInnerType level.type)
      (elementAt mem level elements i)) (indices ++ [containerIndex]) t.1
  else
    collectValuesRecursive mem sink rest (elementAt mem level elements i)
      (indices ++ [containerIndex]) (t.1, t.2)

/-- The events of one element of a container. -/
def containerEvents (mem : RootMemory) (level : PathLevel) (rest : List PathLevel)
    (elements : List Address) (indices : List Int) (names : List String) (i : Nat) :
    List TraversalEvent :=
  match checkedContainerIndex i with
  | .error e => [.fail e]
  | .ok containerIndex =>
      if elementAt mem level elements i = 0 then []
      else if rest.isEmpty then
        leafEvents (containerLeaf mem (mem.extractInnerType level.type)
          (elementAt mem level elements i)) (indices ++ [containerIndex]) names
      else
        traversalEvents mem rest (elementAt mem level elements i) (indices ++ [containerIndex])
          names

/-- A level that the traversal goes through: the object is there, and the pointer to it. -/
structure Passes (mem : RootMemory) (level : PathLevel) (current field : Address) : Prop where
  object : current ≠ 0
  field_eq : fieldAddress mem level current = field
  pointer : (level.isPointer && decide (field = 0)) = false

section Level

variable {level : PathLevel} {rest : List PathLevel} {current field : Address}
variable {indices : List Int} {above names : List String} {s : σ}

theorem traversalEvents_blocked (h : ∀ field, ¬ Passes mem level current field) :
    traversalEvents mem (level :: rest) current indices above = [] := by
  by_cases hnull : current = 0
  · simp only [traversalEvents, hnull, if_true]
  · have hpointer : (level.isPointer && decide (fieldAddress mem level current = 0)) = true := by
      by_contra hne
      exact h _ ⟨hnull, rfl, by simpa using hne⟩
    simp only [traversalEvents, hnull, if_false, hpointer, if_true]

theorem collect_blocked (h : ∀ field, ¬ Passes mem level current field) :
    collectValuesRecursive mem sink (level :: rest) current indices (names, s) =
      .ok (names, s) := by
  by_cases hstop : (decide (current = 0) || sink.full s) = true
  · simp only [collectValuesRecursive, hstop, if_true]
  · have hnull : current ≠ 0 := by
      intro h0
      simp [h0] at hstop
    have hpointer : (level.isPointer && decide (fieldAddress mem level current = 0)) = true := by
      by_contra hne
      exact h _ ⟨hnull, rfl, by simpa using hne⟩
    simp only [collectValuesRecursive, hstop, Bool.false_eq_true, if_false, hpointer, if_true]

theorem collect_full (h : sink.full s = true) :
    collectValuesRecursive mem sink (level :: rest) current indices (names, s) =
      .ok (names, s) := by
  simp only [collectValuesRecursive, h, Bool.or_true, if_true]

theorem traversalEvents_array (h : Passes mem level current field) {array : FixedArray}
    (ha : level.fixedArray = some array) :
    traversalEvents mem (level :: rest) current indices above =
      (List.range' 0 array.length).flatMap
        (arrayEvents mem level rest array field indices (above ++ levelIndexNames level)) := by
  obtain ⟨hnull, rfl, hpointer⟩ := h
  simp only [traversalEvents, hnull, if_false, hpointer, Bool.false_eq_true, ha]
  rfl

theorem collect_array (h : Passes mem level current field) {array : FixedArray}
    (ha : level.fixedArray = some array) (hroom : sink.full s = false) {start : Nat}
    (hstart : sink.startIndex s level indices = .ok start) :
    collectValuesRecursive mem sink (level :: rest) current indices (names, s) =
      forRange (fun t => sink.full t.2)
        (arrayIteration mem sink level rest array field indices) (array.length - start) start
        (appendArrayIndexNames level.name array.dimensions indices.length names, s) := by
  obtain ⟨hnull, rfl, hpointer⟩ := h
  simp only [collectValuesRecursive, hnull, hroom, decide_false, Bool.or_self, if_false,
    hpointer, Bool.false_eq_true, ha, hstart]
  rfl

theorem collect_array_error (h : Passes mem level current field) {array : FixedArray}
    (ha : level.fixedArray = some array) (hroom : sink.full s = false) {e : TraversalError}
    (hstart : sink.startIndex s level indices = .error e) :
    collectValuesRecursive mem sink (level :: rest) current indices (names, s) = .error e := by
  obtain ⟨hnull, rfl, hpointer⟩ := h
  simp only [collectValuesRecursive, hnull, hroom, decide_false, Bool.or_self, if_false,
    hpointer, Bool.false_eq_true, ha, hstart]
  rfl

theorem traversalEvents_container (h : Passes mem level current field)
    (ha : level.fixedArray = none) (hc : level.isContainer = true) :
    traversalEvents mem (level :: rest) current indices above =
      match openContainer mem level rest.isEmpty field with
      | none => []
      | some elements => (List.range' 0 elements.length).flatMap
          (containerEvents mem level rest elements indices (above ++ levelIndexNames level)) := by
  obtain ⟨hnull, rfl, hpointer⟩ := h
  simp only [traversalEvents, hnull, if_false, hpointer, Bool.false_eq_true, ha, hc, if_true]
  rfl

theorem collect_container (h : Passes mem level current field)
    (ha : level.fixedArray = none) (hc : level.isContainer = true) {elements : List Address}
    (hopen : openContainer mem level rest.isEmpty field = some elements)
    (hroom : sink.full s = false) {start : Nat}
    (hstart : sink.startIndex s level indices = .ok start) :
    collectValuesRecursive mem sink (level :: rest) current indices (names, s) =
      forRange (fun t => sink.full t.2)
        (containerIteration mem sink level rest elements indices) (elements.length - start) start
        (if names.length < indices.length + 1 then names ++ [level.name ++ "_idx"] else names,
          s) := by
  obtain ⟨hnull, rfl, hpointer⟩ := h
  simp only [collectValuesRecursive, hnull, hroom, decide_false, Bool.or_self, if_false,
    hpointer, Bool.false_eq_true, ha, hc, if_true, hopen, hstart]
  rfl

theorem collect_container_error (h : Passes mem level current field)
    (ha : level.fixedArray = none) (hc : level.isContainer = true) {elements : List Address}
    (hopen : openContainer mem level rest.isEmpty field = some elements)
    (hroom : sink.full s = false) {e : TraversalError}
    (hstart : sink.startIndex s level indices = .error e) :
    collectValuesRecursive mem sink (level :: rest) current indices (names, s) = .error e := by
  obtain ⟨hnull, rfl, hpointer⟩ := h
  simp only [collectValuesRecursive, hnull, hroom, decide_false, Bool.or_self, if_false,
    hpointer, Bool.false_eq_true, ha, hc, if_true, hopen, hstart]
  rfl

theorem collect_container_closed (h : Passes mem level current field)
    (ha : level.fixedArray = none) (hc : level.isContainer = true)
    (hopen : openContainer mem level rest.isEmpty field = none) (hroom : sink.full s = false) :
    collectValuesRecursive mem sink (level :: rest) current indices (names, s) =
      .ok (names, s) := by
  obtain ⟨hnull, rfl, hpointer⟩ := h
  simp only [collectValuesRecursive, hnull, hroom, decide_false, Bool.or_self, if_false,
    hpointer, Bool.false_eq_true, ha, hc, if_true, hopen]

theorem traversalEvents_scalar (h : Passes mem level current field)
    (ha : level.fixedArray = none) (hc : level.isContainer = false) :
    traversalEvents mem (level :: rest) current indices above =
      if rest.isEmpty then
        leafEvents (fieldLeaf mem level field) indices (above ++ levelIndexNames level)
      else if level.klass.isSome then
        traversalEvents mem rest field indices (above ++ levelIndexNames level)
      else [] := by
  obtain ⟨hnull, rfl, hpointer⟩ := h
  simp only [traversalEvents, hnull, if_false, hpointer, Bool.false_eq_true, ha, hc]

theorem collect_scalar (h : Passes mem level current field)
    (ha : level.fixedArray = none) (hc : level.isContainer = false)
    (hroom : sink.full s = false) :
    collectValuesRecursive mem sink (level :: rest) current indices (names, s) =
      if rest.isEmpty then sink.leaf s (fieldLeaf mem level field) indices names
      else if level.klass.isSome then
        collectValuesRecursive mem sink rest field indices (names, s)
      else .ok (names, s) := by
  obtain ⟨hnull, rfl, hpointer⟩ := h
  simp only [collectValuesRecursive, hnull, hroom, decide_false, Bool.or_self, if_false,
    hpointer, Bool.false_eq_true, ha, hc]

end Level

/-- The tuple of an array element has one index per name of the level. -/
theorem pushArrayCoordinates_length {level : PathLevel} {array : FixedArray}
    (ha : level.fixedArray = some array) {i : Nat} (hi : i < array.length)
    {indices indices' : List Int} {above : List String} (hdepth : above.length = indices.length)
    (h : pushArrayCoordinates i array.dimensions indices = .ok indices') :
    (above ++ levelIndexNames level).length = indices'.length := by
  obtain ⟨coordinates, rfl, hall, -⟩ := pushArrayCoordinates_spec array hi h
  rw [levelIndexNames_array ha, List.length_append, List.length_append,
    arrayIndexNames_length _ array.nonempty, hdepth, hall.length_eq]

theorem container_length {level : PathLevel} (ha : level.fixedArray = none)
    (hc : level.isContainer = true) {indices : List Int} {above : List String}
    (hdepth : above.length = indices.length) (index : Int) :
    (above ++ levelIndexNames level).length = (indices ++ [index]).length := by
  rw [levelIndexNames_container ha hc, List.length_append, List.length_append, hdepth]
  rfl

theorem scalar_length {level : PathLevel} (ha : level.fixedArray = none)
    (hc : level.isContainer = false) {indices : List Int} {above : List String}
    (hdepth : above.length = indices.length) :
    (above ++ levelIndexNames level).length = indices.length := by
  rw [levelIndexNames_scalar ha hc, List.append_nil, hdepth]

section Iteration

variable {level : PathLevel} {rest : List PathLevel} {indices : List Int} {above : List String}

theorem arrayIteration_refines (h : Plain sink P add) (ih : BelowRefines mem sink P add rest)
    {array : FixedArray} (ha : level.fixedArray = some array) (field : Address)
    (hdepth : above.length = indices.length) {i : Nat} (hi : i < array.length)
    (t : TraversalState σ) (s : σ) (hroom : sink.full s = false)
    (ht : Carries P rest (above ++ levelIndexNames level) t s) :
    Refines (Carries P rest (above ++ levelIndexNames level))
      (arrayIteration mem sink level rest array field indices i t)
      (feed sink.full add s
        (arrayEvents mem level rest array field indices (above ++ levelIndexNames level) i)) := by
  obtain ⟨rfl, hnames, hs⟩ := ht
  unfold arrayIteration arrayEvents
  cases hpush : pushArrayCoordinates i array.dimensions indices with
  | error e =>
    rw [feed_fail hroom]
    exact rfl
  | ok indices' =>
    exact element_refines h ih _ _ hs hroom hnames
      (pushArrayCoordinates_length ha hi hdepth hpush)

theorem containerIteration_refines (h : Plain sink P add)
    (ih : BelowRefines mem sink P add rest) (ha : level.fixedArray = none)
    (hc : level.isContainer = true) (elements : List Address)
    (hdepth : above.length = indices.length) (i : Nat)
    (t : TraversalState σ) (s : σ) (hroom : sink.full s = false)
    (ht : Carries P rest (above ++ levelIndexNames level) t s) :
    Refines (Carries P rest (above ++ levelIndexNames level))
      (containerIteration mem sink level rest elements indices i t)
      (feed sink.full add s
        (containerEvents mem level rest elements indices (above ++ levelIndexNames level) i)) := by
  obtain ⟨rfl, hnames, hs⟩ := ht
  unfold containerIteration containerEvents
  cases hindex : checkedContainerIndex i with
  | error e =>
    rw [feed_fail hroom]
    exact rfl
  | ok containerIndex =>
    by_cases hnull : elementAt mem level elements i = 0
    · simp only [hnull, if_true, bind, Except.bind]
      exact ⟨rfl, hnames, hs⟩
    · simp only [hnull, if_false, bind, Except.bind]
      exact element_refines h ih _ _ hs hroom hnames (container_length ha hc hdepth _)

end Iteration

/-- **A traversal gives its sink the events of the object**, until the sink is full. -/
theorem collect_refines (h : Plain sink P add) (levels : List PathLevel) :
    BelowRefines mem sink P add levels := by
  induction levels with
  | nil => exact fun _ _ _ _ _ hs hnames _ => ⟨rfl, hnames, hs⟩
  | cons level rest ih =>
    intro current indices above names s hs hnames hdepth
    have hleave : ∀ t m, Carries P rest (above ++ levelIndexNames level) t m →
        Carries P (level :: rest) above t m := fun t m hc => ⟨hc.1, hc.2.1.leave, hc.2.2⟩
    by_cases hfull : sink.full s
    · rw [feed_of_full hfull, collect_full hfull]
      exact ⟨rfl, hnames, hs⟩
    have hroom : sink.full s = false := by simpa using hfull
    by_cases hpasses : ∃ field, Passes mem level current field
    · obtain ⟨field, hpass⟩ := hpasses
      have hstart := h.start hs level indices
      cases ha : level.fixedArray with
      | some array =>
        rw [collect_array hpass ha hroom hstart, traversalEvents_array hpass ha, Nat.sub_zero]
        refine Refines.mono hleave (forRange_refines (fun t m ht => by rw [ht.1]) _ _ ?_ ?_)
        · intro i t m _ hi hroom ht
          exact arrayIteration_refines h ih ha field hdepth (by omega) t m hroom ht
        · exact ⟨rfl, hnames.enter_array ha hdepth, hs⟩
      | none =>
        cases hc : level.isContainer with
        | true =>
          rw [traversalEvents_container hpass ha hc]
          cases hopen : openContainer mem level rest.isEmpty field with
          | none =>
            rw [collect_container_closed hpass ha hc hopen hroom]
            exact ⟨rfl, hnames, hs⟩
          | some elements =>
            rw [collect_container hpass ha hc hopen hroom hstart, Nat.sub_zero]
            refine Refines.mono hleave (forRange_refines (fun t m ht => by rw [ht.1]) _ _ ?_ ?_)
            · intro i t m _ _ hroom ht
              exact containerIteration_refines h ih ha hc elements hdepth i t m hroom ht
            · exact ⟨rfl, hnames.enter_container ha hc hdepth, hs⟩
        | false =>
          rw [collect_scalar hpass ha hc hroom, traversalEvents_scalar hpass ha hc]
          have hnames' := hnames.enter_scalar ha hc
          have hdepth' := scalar_length ha hc hdepth
          cases hrest : rest.isEmpty with
          | true =>
            obtain rfl : rest = [] := List.isEmpty_iff.mp hrest
            exact Refines.mono hleave (leaf_refines h _ indices hs hroom hnames')
          | false =>
            by_cases hklass : level.klass.isSome
            · simp only [Bool.false_eq_true, if_false, hklass, if_true]
              exact Refines.mono hleave (ih field indices _ names s hs hnames' hdepth')
            · simp only [Bool.false_eq_true, if_false, hklass]
              exact ⟨rfl, hnames, hs⟩
    · have hblocked : ∀ field, ¬ Passes mem level current field := not_exists.mp hpasses
      rw [collect_blocked hblocked, traversalEvents_blocked hblocked]
      exact ⟨rfl, hnames, hs⟩

end Collect

end RootLake

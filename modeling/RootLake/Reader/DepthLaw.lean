import RootLake.Reader.IndexNames
import RootLake.Reader.PagedTraversal
import RootLake.Reader.LevelChain

/-!
# The depth of an emitted value

`Reached` says how the traversal comes to an event, one constructor for each way through a
level. Every value it emits has one index for each name of `levelIndexNames`
(`Reached.length_eq`), which is the depth of the path unless a level is a container and a
fixed array at once. Conversely a path whose end has values emits one in some memory
(`traversalEvents_of_hasLeaf`), so the depth law fails on every such path with such a level.
-/

namespace RootLake

open Batch

/-! ### Events of a path -/

section Reached

variable (mem : RootMemory)

/-- The traversal of these levels from this address has the event. -/
inductive Reached : List PathLevel → Address → List Int → List String → TraversalEvent → Prop
  | arrayFault {level rest current field indices names array i e} :
      Passes mem level current field → level.fixedArray = some array → i < array.length →
      pushArrayCoordinates i array.dimensions indices = .error e →
      Reached (level :: rest) current indices names (.fail e)
  | arrayLeaf {level current field indices indices' names array event} {i : Nat} :
      Passes mem level current field → level.fixedArray = some array → i < array.length →
      pushArrayCoordinates i array.dimensions indices = .ok indices' →
      event ∈ leafEvents (arrayLeaf mem level (field + i * level.elementSize)) indices'
        (names ++ levelIndexNames level) →
      Reached [level] current indices names event
  | arrayBelow {level rest current field indices indices' names array event} {i : Nat} :
      Passes mem level current field → level.fixedArray = some array → i < array.length →
      pushArrayCoordinates i array.dimensions indices = .ok indices' →
      Reached rest (field + i * level.elementSize) indices' (names ++ levelIndexNames level)
        event →
      Reached (level :: rest) current indices names event
  | containerFault {level rest current field indices names elements i e} :
      Passes mem level current field → level.fixedArray = none → level.isContainer = true →
      openContainer mem level rest.isEmpty field = some elements → i < elements.length →
      checkedContainerIndex i = .error e →
      Reached (level :: rest) current indices names (.fail e)
  | containerLeaf {level current field indices names elements event} {i : Nat} :
      Passes mem level current field → level.fixedArray = none → level.isContainer = true →
      openContainer mem level true field = some elements → i < elements.length →
      checkedContainerIndex i = .ok (i : Int) → elementAt mem level elements i ≠ 0 →
      event ∈ leafEvents (containerLeaf mem (mem.extractInnerType level.type)
        (elementAt mem level elements i)) (indices ++ [(i : Int)])
        (names ++ levelIndexNames level) →
      Reached [level] current indices names event
  | containerBelow {level rest current field indices names elements event} {i : Nat} :
      Passes mem level current field → level.fixedArray = none → level.isContainer = true →
      openContainer mem level false field = some elements → i < elements.length →
      checkedContainerIndex i = .ok (i : Int) → elementAt mem level elements i ≠ 0 →
      Reached rest (elementAt mem level elements i) (indices ++ [(i : Int)])
        (names ++ levelIndexNames level) event →
      Reached (level :: rest) current indices names event
  | fieldLeaf {level current field indices names event} :
      Passes mem level current field → level.fixedArray = none → level.isContainer = false →
      event ∈ leafEvents (fieldLeaf mem level field) indices (names ++ levelIndexNames level) →
      Reached [level] current indices names event
  | fieldBelow {level rest current field indices names event} :
      Passes mem level current field → level.fixedArray = none → level.isContainer = false →
      level.klass.isSome = true →
      Reached rest field indices (names ++ levelIndexNames level) event →
      Reached (level :: rest) current indices names event

end Reached

section

variable {mem : RootMemory}

theorem mem_traversalEvents (levels : List PathLevel) :
    ∀ {current : Address} {indices : List Int} {names : List String} {event : TraversalEvent},
      event ∈ traversalEvents mem levels current indices names →
      Reached mem levels current indices names event := by
  induction levels with
  | nil => exact fun h => absurd h List.not_mem_nil
  | cons level rest ih =>
    intro current indices names event hevent
    by_cases hpasses : ∃ field, Passes mem level current field
    case neg =>
      rw [traversalEvents_blocked (not_exists.mp hpasses)] at hevent
      exact absurd hevent List.not_mem_nil
    obtain ⟨field, hpass⟩ := hpasses
    cases ha : level.fixedArray with
    | some array =>
      rw [traversalEvents_array hpass ha] at hevent
      obtain ⟨i, hi, hevent⟩ := List.mem_flatMap.mp hevent
      have hlt : i < array.length := by simpa using (List.mem_range'_1.mp hi).2
      unfold arrayEvents at hevent
      cases hpush : pushArrayCoordinates i array.dimensions indices with
      | error e =>
        rw [hpush] at hevent
        rw [List.mem_singleton.mp hevent]
        exact .arrayFault hpass ha hlt hpush
      | ok indices' =>
        rw [hpush] at hevent
        cases rest with
        | nil => exact .arrayLeaf hpass ha hlt hpush hevent
        | cons next rest => exact .arrayBelow hpass ha hlt hpush (ih hevent)
    | none =>
      cases hc : level.isContainer with
      | true =>
        rw [traversalEvents_container hpass ha hc] at hevent
        cases hopen : openContainer mem level rest.isEmpty field with
        | none =>
          rw [hopen] at hevent
          exact absurd hevent List.not_mem_nil
        | some elements =>
          rw [hopen] at hevent
          obtain ⟨i, hi, hevent⟩ := List.mem_flatMap.mp hevent
          have hlt : i < elements.length := by simpa using (List.mem_range'_1.mp hi).2
          unfold containerEvents at hevent
          cases hindex : checkedContainerIndex i with
          | error e =>
            rw [hindex] at hevent
            rw [List.mem_singleton.mp hevent]
            exact .containerFault hpass ha hc hopen hlt hindex
          | ok index =>
            rw [hindex] at hevent
            obtain rfl := checkedContainerIndex_ok hindex
            by_cases hnull : elementAt mem level elements i = 0
            · simp only [hnull, if_true] at hevent
              exact absurd hevent List.not_mem_nil
            simp only [hnull, if_false] at hevent
            cases rest with
            | nil => exact .containerLeaf hpass ha hc hopen hlt hindex hnull hevent
            | cons next rest =>
              exact .containerBelow hpass ha hc hopen hlt hindex hnull (ih hevent)
      | false =>
        rw [traversalEvents_scalar hpass ha hc] at hevent
        cases rest with
        | nil => exact .fieldLeaf hpass ha hc hevent
        | cons next rest =>
          by_cases hklass : level.klass.isSome = true
          · simp only [List.isEmpty_cons, Bool.false_eq_true, if_false, hklass, if_true] at hevent
            exact .fieldBelow hpass ha hc hklass (ih hevent)
          · simp only [List.isEmpty_cons, Bool.false_eq_true, if_false, hklass] at hevent
            exact absurd hevent List.not_mem_nil

/-! ### Indices of a value -/

theorem row_of_mem_leafEvents {leaf : Option (Except TraversalError SinkValue)}
    {indices : List Int} {names : List String} {e : Emission}
    (h : .row e ∈ leafEvents leaf indices names) : e.indices = indices ∧ e.names = names := by
  match leaf with
  | none => exact absurd h List.not_mem_nil
  | some (.error _) => cases List.mem_singleton.mp h
  | some (.ok _) =>
    cases List.mem_singleton.mp h
    exact ⟨rfl, rfl⟩

/-- A value has the names of the path, and an index for each of them. -/
theorem Reached.length_eq {levels : List PathLevel} {current : Address} {indices : List Int}
    {names : List String} {event : TraversalEvent}
    (h : Reached mem levels current indices names event) :
    names.length = indices.length → ∀ e, event = .row e →
      e.names = names ++ levels.flatMap levelIndexNames ∧ e.indices.length = e.names.length := by
  induction h with
  | arrayFault => exact fun _ e he => nomatch he
  | containerFault => exact fun _ e he => nomatch he
  | arrayLeaf _ ha hi hpush hevent =>
    rintro hdepth e rfl
    obtain ⟨hindices, hnames⟩ := row_of_mem_leafEvents hevent
    rw [hindices, hnames, List.flatMap_cons, List.flatMap_nil, List.append_nil]
    exact ⟨rfl, (pushArrayCoordinates_length ha hi hdepth hpush).symm⟩
  | arrayBelow _ ha hi hpush _ ih =>
    intro hdepth e he
    rw [List.flatMap_cons, ← List.append_assoc]
    exact ih (pushArrayCoordinates_length ha hi hdepth hpush) e he
  | containerLeaf _ ha hc _ _ _ _ hevent =>
    rintro hdepth e rfl
    obtain ⟨hindices, hnames⟩ := row_of_mem_leafEvents hevent
    rw [hindices, hnames, List.flatMap_cons, List.flatMap_nil, List.append_nil]
    exact ⟨rfl, (container_length ha hc hdepth _).symm⟩
  | containerBelow _ ha hc _ _ _ _ _ ih =>
    intro hdepth e he
    rw [List.flatMap_cons, ← List.append_assoc]
    exact ih (container_length ha hc hdepth _) e he
  | fieldLeaf _ ha hc hevent =>
    rintro hdepth e rfl
    obtain ⟨hindices, hnames⟩ := row_of_mem_leafEvents hevent
    rw [hindices, hnames, List.flatMap_cons, List.flatMap_nil, List.append_nil]
    exact ⟨rfl, (scalar_length ha hc hdepth).symm⟩
  | fieldBelow _ ha hc _ _ ih =>
    intro hdepth e he
    rw [List.flatMap_cons, ← List.append_assoc]
    exact ih (scalar_length ha hc hdepth) e he

/-- The values of an object have an index for each name the traversal adds. -/
theorem emission_length {levels : List PathLevel} {object : Address} {e : Emission}
    (h : .row e ∈ traversalEvents mem levels object [] []) :
    e.names = levels.flatMap levelIndexNames ∧
      e.indices.length = (levels.flatMap levelIndexNames).length := by
  obtain ⟨hnames, hlength⟩ := (mem_traversalEvents levels h).length_eq rfl e rfl
  rw [List.nil_append] at hnames
  exact ⟨hnames, hlength.trans (congrArg List.length hnames)⟩

/-- A page of an object has the names of the traversal, an index for each, and values of the
    object alone. -/
theorem OffsetValueCursor.Reads.page_rows {cursor next : OffsetValueCursor}
    {levels : List PathLevel} {root : Address} {entryId : Int64} {later : List TraversalEvent}
    {limit : Nat} {page : ReadResult} (h : cursor.Reads mem root levels entryId later)
    (hlimit : 1 ≤ limit) (hpage : cursor.readPage mem limit = .ok (true, page, next)) :
    page.vectorNames = levels.flatMap levelIndexNames ∧ ∀ row ∈ page.rows,
      row.indices.length = (levels.flatMap levelIndexNames).length ∧
        ∃ e, .row e ∈ traversalEvents mem levels root [] [] ∧ e.indices = row.indices := by
  cases h.pageStep hlimit with
  | threw hread => cases hread.symm.trans hpage
  | exhausted hread => cases hread.symm.trans hpage
  | @page rows rest _ _ hread hlater hrows hadded _ =>
    cases hread.symm.trans hpage
    have hmem : ∀ e ∈ rows, Event.row e ∈ traversalEvents mem levels root [] [] := by
      intro e he
      have hlaterMem : Event.row e ∈ later := by
        rw [hlater]
        exact List.mem_append_left _ (List.mem_map_of_mem he)
      rcases h.position with ⟨-, hevents⟩ | ⟨-, past, last, hevents, -⟩
      · rw [hevents]
        exact hlaterMem
      · rw [hevents]
        exact List.mem_append_right _ (List.mem_cons_of_mem _ hlaterMem)
    refine ⟨?_, fun row hrow => ?_⟩
    · rw [hadded]
      exact foldl_add_names entryId (fun e he => (emission_length (hmem e he)).1) hrows
    · rw [hadded, foldl_add_rows, List.nil_append] at hrow
      obtain ⟨e, he, rfl⟩ := List.mem_map.mp hrow
      exact ⟨(emission_length (hmem e he)).2, e, hmem e he, rfl⟩

end

/-! ### Memories of a dictionary -/

/-- The process answers as its dictionary and the texts of types do. -/
structure RootMemory.Agrees (mem : RootMemory) (dictionary : Dictionary) : Prop where
  hasCollectionProxy : ∀ klass, mem.hasCollectionProxy klass =
    (dictionary.info klass).valueClass.isSome
  classSize : ∀ klass, mem.classSize klass = (dictionary.info klass).size
  extractInnerType : mem.extractInnerType = SemanticTypes.extractInnerType
  isPrimitiveType : ∀ type, mem.isPrimitiveType type =
    (SemanticTypes.isPrimitiveType type).toOption.getD false
  isStringType : mem.isStringType = SemanticTypes.isStringType

/-- The level at the end of a path has values to emit. -/
def PathLevel.hasLeaf (level : PathLevel) : Bool :=
  match level.fixedArray with
  | some _ => level.isPrimitive
  | none =>
      if level.isContainer then
        (SemanticTypes.isPrimitiveType (SemanticTypes.extractInnerType level.type)).toOption.getD
            false ||
          SemanticTypes.isStringType (SemanticTypes.extractInnerType level.type)
      else level.isPrimitive || level.isString

/-- Every pointer leads to the same address, and every collection has one element there. -/
def constantMemory (dictionary : Dictionary) (target : Address) : RootMemory where
  pointer _ := target
  elements _ _ := [target]
  primitive _ _ := .ok (.signed 0)
  string _ _ := .ok ""
  hasDictionary _ := true
  hasCollectionProxy klass := (dictionary.info klass).valueClass.isSome
  classSize klass := (dictionary.info klass).size
  trimType type := type
  extractInnerType := SemanticTypes.extractInnerType
  isPrimitiveType type := (SemanticTypes.isPrimitiveType type).toOption.getD false
  isStringType := SemanticTypes.isStringType
  isPointerType _ := false
  isContiguousVectorType _ := false
  primitiveTypeSize _ := 0
  contiguousVectorPathEnabled := false

theorem constantMemory_agrees (dictionary : Dictionary) (target : Address) :
    (constantMemory dictionary target).Agrees dictionary :=
  { hasCollectionProxy := fun _ => by simp only [constantMemory]
    classSize := fun _ => by simp only [constantMemory]
    extractInnerType := by simp only [constantMemory]
    isPrimitiveType := fun _ => by simp only [constantMemory]
    isStringType := by simp only [constantMemory] }

/-- How far the levels can lead below an address. -/
def reach (levels : List PathLevel) : Int :=
  (levels.map fun level => (level.offsetInParent.natAbs : Int)).sum

theorem reach_nonneg (levels : List PathLevel) : 0 ≤ reach levels := by
  induction levels with
  | nil => exact Int.le_refl 0
  | cons level levels ih =>
    rw [reach, List.map_cons, List.sum_cons, ← reach]
    omega

/-- The first element of an array has coordinates. -/
theorem arrayCoordinates_zero {dimensions : List Nat} (h : ∀ d ∈ dimensions, 0 < d) :
    ∃ coordinates, arrayCoordinates dimensions 0 = .ok (coordinates, 0) := by
  induction dimensions with
  | nil => exact ⟨[], rfl⟩
  | cons d dimensions ih =>
    obtain ⟨coordinates, hcoordinates⟩ := ih fun e he => h e (List.mem_cons_of_mem _ he)
    have hd := h d List.mem_cons_self
    refine ⟨((0 % d : Nat) : Int) :: coordinates, ?_⟩
    simp only [arrayCoordinates, hcoordinates, bind, Except.bind]
    rw [if_neg hd.ne', if_neg (by rw [Nat.zero_mod]; exact Nat.not_lt_zero _), Nat.zero_div]

theorem pushArrayCoordinates_zero (array : FixedArray) (indices : List Int) :
    ∃ indices', pushArrayCoordinates 0 array.dimensions indices = .ok indices' := by
  obtain ⟨coordinates, h⟩ := arrayCoordinates_zero fun d hd => (array.positive d hd).1
  refine ⟨indices ++ coordinates, ?_⟩
  rw [pushArrayCoordinates, if_neg array.nonempty, h]
  rfl

section

variable {dictionary : Dictionary} {target : Address}

theorem constantMemory_passes {level : PathLevel} {rest : List PathLevel} {current : Address}
    (hcurrent : reach (level :: rest) < current) (htarget : reach (level :: rest) < target) :
    ∃ field, Passes (constantMemory dictionary target) level current field ∧
      reach rest < field := by
  have hreach : reach (level :: rest) = level.offsetInParent.natAbs + reach rest := by
    rw [reach, List.map_cons, List.sum_cons, ← reach]
  have hrest := reach_nonneg rest
  have hobject : current ≠ 0 := Int.ne_of_gt (show (0 : Int) < current by omega)
  cases hpointer : level.isPointer with
  | true =>
    have hfield : fieldAddress (constantMemory dictionary target) level current = target := by
      have hslot : current + level.offsetInParent ≠ 0 :=
        Int.ne_of_gt (show (0 : Int) < current + level.offsetInParent by omega)
      simp only [fieldAddress, hpointer, if_true, constantMemory]
      exact if_neg hslot
    have hnonzero : target ≠ 0 := Int.ne_of_gt (show (0 : Int) < target by omega)
    refine ⟨target, ⟨hobject, hfield, ?_⟩, by omega⟩
    rw [Bool.and_eq_false_iff, decide_eq_false_iff_not]
    exact .inr hnonzero
  | false =>
    have hfield : fieldAddress (constantMemory dictionary target) level current =
        current + level.offsetInParent := by
      simp only [fieldAddress, hpointer, Bool.false_eq_true, if_false]
    have hbelow : reach rest < (current : Int) + level.offsetInParent := by omega
    refine ⟨current + level.offsetInParent, ⟨hobject, hfield, ?_⟩, hbelow⟩
    rw [hpointer, Bool.false_and]

theorem constantMemory_open (target : Address) {level : PathLevel} (last : Bool) (field : Address)
    (hc : ∃ klass, level.klass = some klass ∧ (dictionary.info klass).valueClass.isSome = true) :
    openContainer (constantMemory dictionary target) level last field = some [target] := by
  obtain ⟨klass, hklass, hvalue⟩ := hc
  simp only [openContainer, hklass, constantMemory, hvalue, Bool.or_true, Bool.and_self, if_true]

theorem checkedContainerIndex_zero : checkedContainerIndex 0 = .ok ((0 : Nat) : Int) := by
  rw [checkedContainerIndex, if_neg (by decide)]

/-- The first turn of a loop comes first. -/
theorem flatMap_first (tail : List TraversalEvent) {n : Nat} (hn : 0 < n)
    {f : Nat → List TraversalEvent} {e : Emission} (h : f 0 = .row e :: tail) :
    ∃ tail, (List.range' 0 n).flatMap f = .row e :: tail := by
  obtain ⟨n, rfl⟩ := Nat.exists_eq_succ_of_ne_zero hn.ne'
  rw [List.range'_succ, List.flatMap_cons, h]
  exact ⟨_, rfl⟩

/-- A path of collections of the dictionary that ends in values starts with one. -/
theorem traversalEvents_of_hasLeaf {levels : List PathLevel} :
    ∀ (hne : levels ≠ []), (levels.getLast hne).hasLeaf = true →
      (∀ level ∈ levels.dropLast, level.klass.isSome = true) →
      (∀ level ∈ levels, level.isContainer = true →
        ∃ klass, level.klass = some klass ∧ (dictionary.info klass).valueClass.isSome = true) →
      ∀ (current : Address) (indices : List Int) (names : List String), reach levels < current →
        reach levels < target →
        ∃ e tail, traversalEvents (constantMemory dictionary target) levels current indices names =
          .row e :: tail := by
  induction levels with
  | nil => exact fun hne => absurd rfl hne
  | cons level rest ih =>
    intro _ hleaf hdescends hcollections current indices names hcurrent htarget
    obtain ⟨field, hpass, hfield⟩ := @constantMemory_passes dictionary target level rest current hcurrent htarget
    have htargetRest : reach rest < target := by
      rw [reach, List.map_cons, List.sum_cons, ← reach] at htarget
      omega
    have hnonzero : target ≠ 0 := by
      have hrest := reach_nonneg rest
      exact Int.ne_of_gt (show (0 : Int) < target by omega)
    cases rest with
    | nil =>
      rw [List.getLast_singleton] at hleaf
      cases ha : level.fixedArray with
      | some array =>
        obtain ⟨indices', hpush⟩ := pushArrayCoordinates_zero array indices
        simp only [PathLevel.hasLeaf, ha] at hleaf
        refine ⟨⟨.number (.signed 0), indices', names ++ levelIndexNames level⟩, ?_⟩
        rw [traversalEvents_array hpass ha]
        apply flatMap_first [] array.length_pos
        simp only [arrayEvents, hpush, List.isEmpty_nil, if_true, arrayLeaf, hleaf]
        rfl
      | none =>
        cases hc : level.isContainer with
        | true =>
          have hopen := constantMemory_open target true field
            (hcollections level List.mem_cons_self hc)
          simp only [PathLevel.hasLeaf, ha, hc, if_true, Bool.or_eq_true] at hleaf
          have helement : elementAt (constantMemory dictionary target) level [target] 0 ≠ 0 :=
            hnonzero
          simp only [traversalEvents_container hpass ha hc, List.isEmpty_nil, hopen]
          by_cases hprimitive : (SemanticTypes.isPrimitiveType
              (SemanticTypes.extractInnerType level.type)).toOption.getD false = true
          · refine ⟨⟨.number (.signed 0), indices ++ [((0 : Nat) : Int)],
              names ++ levelIndexNames level⟩, flatMap_first [] Nat.one_pos ?_⟩
            simp only [containerEvents, checkedContainerIndex_zero, helement, if_false,
              List.isEmpty_nil, if_true]
            simp only [containerLeaf, constantMemory, hprimitive, if_true]
            rfl
          · refine ⟨⟨.string "", indices ++ [((0 : Nat) : Int)],
              names ++ levelIndexNames level⟩, flatMap_first [] Nat.one_pos ?_⟩
            simp only [containerEvents, checkedContainerIndex_zero, helement, if_false,
              List.isEmpty_nil, if_true]
            simp only [containerLeaf, constantMemory, hprimitive, Bool.false_eq_true, if_false,
              hleaf.resolve_left hprimitive, if_true]
            rfl
        | false =>
          simp only [PathLevel.hasLeaf, ha, hc, Bool.false_eq_true, if_false, Bool.or_eq_true]
            at hleaf
          simp only [traversalEvents_scalar hpass ha hc, List.isEmpty_nil, if_true]
          by_cases hprimitive : level.isPrimitive = true
          · refine ⟨⟨.number (.signed 0), indices, names ++ levelIndexNames level⟩, [], ?_⟩
            simp only [fieldLeaf, hprimitive, if_true]
            rfl
          · refine ⟨⟨.string "", indices, names ++ levelIndexNames level⟩, [], ?_⟩
            simp only [fieldLeaf, hprimitive, hleaf.resolve_left hprimitive, if_true]
            rfl
    | cons next rest =>
      have hbelow := ih (List.cons_ne_nil _ _)
        (by rwa [List.getLast_cons (List.cons_ne_nil _ _)] at hleaf)
        (fun other hother => hdescends other (by
          rw [List.dropLast_cons_cons]
          exact List.mem_cons_of_mem _ hother))
        (fun other hother => hcollections other (List.mem_cons_of_mem _ hother))
      cases ha : level.fixedArray with
      | some array =>
        obtain ⟨indices', hpush⟩ := pushArrayCoordinates_zero array indices
        obtain ⟨e, tail, he⟩ := hbelow (field + ((0 : Nat) : Int) * level.elementSize) indices'
          (names ++ levelIndexNames level) (by simpa using hfield) htargetRest
        rw [traversalEvents_array hpass ha]
        refine ⟨e, flatMap_first tail array.length_pos ?_⟩
        simp only [arrayEvents, hpush, List.isEmpty_cons, Bool.false_eq_true, if_false]
        exact he
      | none =>
        cases hc : level.isContainer with
        | true =>
          have hopen := constantMemory_open target false field
            (hcollections level List.mem_cons_self hc)
          obtain ⟨e, tail, he⟩ := hbelow target (indices ++ [((0 : Nat) : Int)])
            (names ++ levelIndexNames level) htargetRest htargetRest
          have helement : elementAt (constantMemory dictionary target) level [target] 0 ≠ 0 :=
            hnonzero
          simp only [traversalEvents_container hpass ha hc, List.isEmpty_cons, hopen]
          refine ⟨e, flatMap_first tail Nat.one_pos ?_⟩
          simp only [containerEvents, checkedContainerIndex_zero, helement, if_false,
            List.isEmpty_cons, Bool.false_eq_true]
          exact he
        | false =>
          have hklass := hdescends level (by
            rw [List.dropLast_cons_cons]
            exact List.mem_cons_self)
          simp only [traversalEvents_scalar hpass ha hc, List.isEmpty_cons, Bool.false_eq_true,
            if_false, hklass, if_true]
          exact hbelow field indices (names ++ levelIndexNames level) hfield htargetRest

end

end RootLake

import RootLake.Reader.PathReader
import RootLake.Reader.StoredTypes

/-!
# Checks of the depth

Sinks that keep their indices in one vector compare the number of indices of a value with
the depth of the path. A sink that compares does what it does without comparing, whenever
no level of the path is a container and a fixed array at once, or the end of the path has
no values (`collect_congr`); and on every other resolved path, in some process, it does not
(`depthLaw_iff`).
-/

namespace RootLake

open SemanticTypes Feed

/-! ### Sinks that compare -/

def depthMismatch (expected got : Nat) : TraversalError :=
  .read ⟨"ROOT container depth mismatch while executing indexed access plan: expected " ++
    toString expected ++ ", got " ++ toString got⟩

/-- `FlatTypedSink`, whose rows all have as many indices; a negative `maxValues` is no
    limit. -/
def flatTypedSink (indexDepth : Nat) (maxValues : Int) : Sink Buffers where
  startIndex _ _ _ := .ok 0
  full out := decide (0 ≤ maxValues) && decide (maxValues.toNat ≤ out.values.length)
  value out read indices _ :=
    match read with
    | .ok (.string _) => .ok out
    | .ok (.number value) =>
        if indices.length ≠ indexDepth then .error (depthMismatch indexDepth indices.length)
        else .ok { values := out.values ++ [value], indices := out.indices ++ indices }
    | .error e =>
        if indices.length ≠ indexDepth then .error (depthMismatch indexDepth indices.length)
        else .error e

/-- `String` leaves its pointer alone. -/
def RootMemory.withoutStrings (mem : RootMemory) : RootMemory :=
  { mem with string := fun _ _ => .ok "" }

def collectTypedFlat (mem : RootMemory) (rootObject : Address) (levels : List PathLevel)
    (indexDepth : Nat) (maxValues : Int) (out : Buffers) : Except TraversalError Buffers :=
  runTraversal mem.withoutStrings (flatTypedSink indexDepth maxValues) rootObject levels out

/-- The sink behind a comparison of the depth. -/
def Sink.checked {σ : Type} (sink : Sink σ) (depth : Nat) : Sink σ :=
  { sink with
    value := fun s read indices names =>
      if indices.length ≠ depth then .error (depthMismatch depth indices.length)
      else sink.value s read indices names }

/-- The end of a path has values. -/
def hasValues (levels : List PathLevel) : Prop := ∃ last ∈ levels.getLast?, last.hasLeaf = true

/-! ### Two sinks that agree at the depth of the path -/

section Congr

variable {dictionary : Dictionary} {mem : RootMemory} {σ : Type} {sink sink' : Sink σ}
variable {depth : Nat} {level : PathLevel} {rest : List PathLevel} {indices : List Int}

/-- The sinks differ in values whose number of indices is not the depth. -/
structure AgreeAt (sink sink' : Sink σ) (depth : Nat) : Prop where
  startIndex : sink'.startIndex = sink.startIndex
  full : sink'.full = sink.full
  value : ∀ s read indices names, indices.length = depth →
    sink'.value s read indices names = sink.value s read indices names

/-- With this many indices in front of the levels, values have the depth. -/
def Fits (depth : Nat) (levels : List PathLevel) (indices : List Int) : Prop :=
  hasValues levels → indices.length + (levels.flatMap levelIndexNames).length = depth

theorem Fits.below (h : Fits depth (level :: rest) indices) (hrest : rest ≠ [])
    {indices' : List Int}
    (hlength : indices'.length = indices.length + (levelIndexNames level).length) :
    Fits depth rest indices' := by
  rintro ⟨last, hlast, hleaf⟩
  obtain ⟨next, rest, rfl⟩ := List.exists_cons_of_ne_nil hrest
  have hdepth := h ⟨last, by rwa [List.getLast?_cons_cons], hleaf⟩
  rw [List.flatMap_cons, List.length_append, ← Nat.add_assoc] at hdepth
  rwa [hlength]

theorem Fits.leaf (h : Fits depth [level] indices) (hleaf : level.hasLeaf = true)
    {indices' : List Int}
    (hlength : indices'.length = indices.length + (levelIndexNames level).length) :
    indices'.length = depth := by
  have hdepth := h ⟨level, rfl, hleaf⟩
  rw [List.flatMap_cons, List.flatMap_nil, List.append_nil] at hdepth
  rwa [hlength]

theorem leaf_congr (h : AgreeAt sink sink' depth) {leaf : Option (Except TraversalError SinkValue)}
    (hleaf : leaf.isSome = true → indices.length = depth) (s : σ) (names : List String) :
    sink'.leaf s leaf indices names = sink.leaf s leaf indices names := by
  cases leaf with
  | none => rfl
  | some read => simp only [Sink.leaf, h.value s read indices names (hleaf rfl)]

theorem arrayLeaf_isSome {array : FixedArray} (ha : level.fixedArray = some array)
    {element : Address} (h : (arrayLeaf mem level element).isSome = true) :
    level.hasLeaf = true := by
  unfold arrayLeaf at h
  split at h
  next hprimitive => simp only [PathLevel.hasLeaf, ha, hprimitive]
  next => cases h

theorem containerLeaf_isSome (agrees : mem.Agrees dictionary) (ha : level.fixedArray = none)
    (hc : level.isContainer = true) {element : Address}
    (h : (containerLeaf mem (mem.extractInnerType level.type) element).isSome = true) :
    level.hasLeaf = true := by
  simp only [PathLevel.hasLeaf, ha, hc, if_true, Bool.or_eq_true]
  rw [← agrees.isPrimitiveType, ← agrees.isStringType, ← agrees.extractInnerType]
  unfold containerLeaf at h
  split at h
  next hprimitive => exact .inl hprimitive
  next =>
    split at h
    next hstring => exact .inr hstring
    next => cases h

theorem fieldLeaf_isSome (ha : level.fixedArray = none) (hc : level.isContainer = false)
    {field : Address} (h : (fieldLeaf mem level field).isSome = true) : level.hasLeaf = true := by
  simp only [PathLevel.hasLeaf, ha, hc, Bool.false_eq_true, if_false, Bool.or_eq_true]
  unfold fieldLeaf at h
  split at h
  next hprimitive => exact .inl hprimitive
  next =>
    split at h
    next hstring => exact .inr hstring
    next => cases h

/-- What is known of the levels below a loop. -/
def BelowCongr (mem : RootMemory) (sink sink' : Sink σ) (depth : Nat) (rest : List PathLevel) :
    Prop :=
  ∀ current indices t, Fits depth rest indices →
    collectValuesRecursive mem sink' rest current indices t =
      collectValuesRecursive mem sink rest current indices t

theorem arrayIteration_congr (h : AgreeAt sink sink' depth) (ih : BelowCongr mem sink sink' depth rest)
    {array : FixedArray} (ha : level.fixedArray = some array)
    (hfits : Fits depth (level :: rest) indices) (field : Address) {i : Nat}
    (hi : i < array.length) (t : TraversalState σ) :
    arrayIteration mem sink' level rest array field indices i t =
      arrayIteration mem sink level rest array field indices i t := by
  unfold arrayIteration
  cases hpush : pushArrayCoordinates i array.dimensions indices with
  | error e => rfl
  | ok indices' =>
    have hlength : indices'.length = indices.length + (levelIndexNames level).length := by
      have hpushed := pushArrayCoordinates_length ha hi
        (show (indices.map fun _ => "").length = indices.length by simp) hpush
      rw [List.length_append, List.length_map] at hpushed
      exact hpushed.symm
    simp only [bind, Except.bind]
    cases rest with
    | nil =>
      simp only [List.isEmpty_nil, if_true]
      exact leaf_congr h (fun hsome => hfits.leaf (arrayLeaf_isSome ha hsome) hlength) _ _
    | cons next rest =>
      simp only [List.isEmpty_cons, Bool.false_eq_true, if_false]
      exact ih _ _ _ (hfits.below (List.cons_ne_nil _ _) hlength)

theorem containerIteration_congr (agrees : mem.Agrees dictionary) (h : AgreeAt sink sink' depth)
    (ih : BelowCongr mem sink sink' depth rest) (ha : level.fixedArray = none)
    (hc : level.isContainer = true) (hfits : Fits depth (level :: rest) indices)
    (elements : List Address) (i : Nat) (t : TraversalState σ) :
    containerIteration mem sink' level rest elements indices i t =
      containerIteration mem sink level rest elements indices i t := by
  unfold containerIteration
  cases hindex : checkedContainerIndex i with
  | error e => rfl
  | ok index =>
    have hlength : (indices ++ [index]).length = indices.length + (levelIndexNames level).length := by
      rw [levelIndexNames_container ha hc, List.length_append]
      rfl
    simp only [bind, Except.bind]
    by_cases hnull : elementAt mem level elements i = 0
    · simp only [hnull, if_true]
    simp only [hnull, if_false]
    cases rest with
    | nil =>
      simp only [List.isEmpty_nil, if_true]
      exact leaf_congr h (fun hsome => hfits.leaf (containerLeaf_isSome agrees ha hc hsome) hlength)
        _ _
    | cons next rest =>
      simp only [List.isEmpty_cons, Bool.false_eq_true, if_false]
      exact ih _ _ _ (hfits.below (List.cons_ne_nil _ _) hlength)

/-- A traversal whose values have the depth cannot tell the sinks apart. -/
theorem collect_congr (agrees : mem.Agrees dictionary) (h : AgreeAt sink sink' depth)
    (levels : List PathLevel) : BelowCongr mem sink sink' depth levels := by
  induction levels with
  | nil => exact fun _ _ _ _ => rfl
  | cons level rest ih =>
    rintro current indices ⟨names, s⟩ hfits
    by_cases hpasses : ∃ field, Passes mem level current field
    case neg => rw [collect_blocked (not_exists.mp hpasses), collect_blocked (not_exists.mp hpasses)]
    obtain ⟨field, hpass⟩ := hpasses
    cases hfull : sink.full s with
    | true => rw [collect_full hfull, collect_full (h.full ▸ hfull)]
    | false =>
      have hfull' : sink'.full s = false := h.full ▸ hfull
      cases ha : level.fixedArray with
      | some array =>
        cases hstart : sink.startIndex s level indices with
        | error e =>
          rw [collect_array_error hpass ha hfull hstart,
            collect_array_error hpass ha hfull' (h.startIndex ▸ hstart)]
        | ok start =>
          rw [collect_array hpass ha hfull hstart,
            collect_array hpass ha hfull' (h.startIndex ▸ hstart), h.full]
          exact forRange_congr _ _ (fun i t _ hi =>
            arrayIteration_congr h ih ha hfits field (by omega) t) _
      | none =>
        cases hc : level.isContainer with
        | true =>
          cases hopen : openContainer mem level rest.isEmpty field with
          | none =>
            rw [collect_container_closed hpass ha hc hopen hfull,
              collect_container_closed hpass ha hc hopen hfull']
          | some elements =>
            cases hstart : sink.startIndex s level indices with
            | error e =>
              rw [collect_container_error hpass ha hc hopen hfull hstart,
                collect_container_error hpass ha hc hopen hfull' (h.startIndex ▸ hstart)]
            | ok start =>
              rw [collect_container hpass ha hc hopen hfull hstart,
                collect_container hpass ha hc hopen hfull' (h.startIndex ▸ hstart), h.full]
              exact forRange_congr _ _ (fun i t _ _ =>
                containerIteration_congr agrees h ih ha hc hfits elements i t) _
        | false =>
          have hlength : indices.length = indices.length + (levelIndexNames level).length := by
            rw [levelIndexNames_scalar ha hc]
            rfl
          rw [collect_scalar hpass ha hc hfull, collect_scalar hpass ha hc hfull']
          cases rest with
          | nil =>
            simp only [List.isEmpty_nil, if_true]
            exact leaf_congr h (fun hsome => hfits.leaf (fieldLeaf_isSome ha hc hsome) hlength) _ _
          | cons next rest =>
            simp only [List.isEmpty_cons, Bool.false_eq_true, if_false]
            split
            · exact ih _ _ _ (hfits.below (List.cons_ne_nil _ _) hlength)
            · rfl

end Congr

/-! ### The depth law -/

/-- `FlatTypedSink` without its comparison. -/
def flatSink (maxValues : Int) : Sink Buffers where
  startIndex _ _ _ := .ok 0
  full out := decide (0 ≤ maxValues) && decide (maxValues.toNat ≤ out.values.length)
  value out read indices _ :=
    match read with
    | .ok (.string _) => .ok out
    | .ok (.number value) =>
        .ok { values := out.values ++ [value], indices := out.indices ++ indices }
    | .error e => .error e

theorem flatSink_agrees (depth : Nat) (maxValues : Int) :
    AgreeAt (flatSink maxValues) (flatTypedSink depth maxValues) depth where
  startIndex := rfl
  full := rfl
  value := by
    intro s read indices names hdepth
    simp only [flatTypedSink, flatSink, hdepth, ne_eq, not_true_eq_false, if_false]

theorem checked_agrees {σ : Type} (sink : Sink σ) (depth : Nat) :
    AgreeAt sink (sink.checked depth) depth where
  startIndex := rfl
  full := rfl
  value := by
    intro s read indices names hdepth
    simp only [Sink.checked, hdepth, ne_eq, not_true_eq_false, if_false]

def ReadRow.isNumber (row : ReadRow) : Bool :=
  match row.value with
  | .number _ => true
  | .string _ => false

/-- Values have as many indices as the path has, whoever takes them: no sink notices a
    comparison, neither of the flat readers fails one, and a page of numbers fits. -/
structure DepthLaw (dictionary : Dictionary) (levels : List PathLevel) : Prop where
  sinks : ∀ {mem : RootMemory}, mem.Agrees dictionary → ∀ {σ : Type} (sink : Sink σ)
    (rootObject : Address) (s : σ),
      runTraversal mem (sink.checked (indexDepth levels)) rootObject levels s =
        runTraversal mem sink rootObject levels s
  flat : ∀ {mem : RootMemory}, mem.Agrees dictionary → ∀ (rootObject : Address)
    (maxValues : Int) (out : Buffers),
      collectTypedFlat mem rootObject levels (indexDepth levels) maxValues out =
        runTraversal mem.withoutStrings (flatSink maxValues) rootObject levels out
  reference : ∀ {mem : RootMemory}, mem.Agrees dictionary → ∀ reader : RootPathReader,
    reader.levels = levels → ∀ object : Address,
      reader.collectTypedFlat mem object =
        match collectDirect mem object levels (-1) 0 {} with
        | .error e => .error e.toIOException
        | .ok result => .ok result.buffers
  pages : ∀ {mem : RootMemory}, mem.Agrees dictionary → ∀ {rootObject : Address}
    {entryId : Int64} {cursor next : OffsetValueCursor} {later : List TraversalEvent}
    {limit : Nat} {page : ReadResult}, cursor.Reads mem rootObject levels entryId later →
      1 ≤ limit → cursor.readPage mem limit = .ok (true, page, next) →
      page.rows.all (ReadRow.fits (indexDepth levels)) = page.rows.all ReadRow.isNumber

/-- No level of the path is a loop twice, or there is nothing at its end. -/
def DepthCounted (levels : List PathLevel) : Prop :=
  hasValues levels → ∀ level ∈ levels, level.SingleLoop

section Law

variable {dictionary : Dictionary} {mem : RootMemory} {levels : List PathLevel}

theorem DepthCounted.fits (h : DepthCounted levels) : Fits (indexDepth levels) levels [] := by
  intro hvalues
  rw [List.length_nil, Nat.zero_add]
  exact (length_flatMap_levelIndexNames_iff levels).mpr (h hvalues)

/-- Events of a path without values are faults of indices. -/
theorem Reached.hasValues (agrees : mem.Agrees dictionary) {current : Address}
    {indices : List Int} {names : List String} {event : TraversalEvent}
    (h : Reached mem levels current indices names event) :
    (∀ e, event ≠ .row e) ∧ ReadsStored event ∨ hasValues levels := by
  have hsome {leaf : Option (Except TraversalError SinkValue)} {indices : List Int}
      {names : List String} {event : TraversalEvent} (h : event ∈ leafEvents leaf indices names) :
      leaf.isSome = true := by
    cases leaf with
    | none => exact absurd h List.not_mem_nil
    | some => rfl
  have hbelow {level : PathLevel} {rest : List PathLevel} (h : RootLake.hasValues rest) :
      RootLake.hasValues (level :: rest) := by
    obtain ⟨last, hlast, hleaf⟩ := h
    cases rest with
    | nil => cases hlast
    | cons next rest => exact ⟨last, by rwa [List.getLast?_cons_cons], hleaf⟩
  induction h with
  | arrayFault _ _ _ hpush => exact .inl ⟨(fun _ h => nomatch h), pushArrayCoordinates_no_read hpush⟩
  | containerFault _ _ _ _ _ hindex =>
    exact .inl ⟨(fun _ h => nomatch h), checkedContainerIndex_no_read hindex⟩
  | arrayLeaf _ ha _ _ hevent => exact .inr ⟨_, rfl, arrayLeaf_isSome ha (hsome hevent)⟩
  | containerLeaf _ ha hc _ _ _ _ hevent =>
    exact .inr ⟨_, rfl, containerLeaf_isSome agrees ha hc (hsome hevent)⟩
  | fieldLeaf _ ha hc hevent => exact .inr ⟨_, rfl, fieldLeaf_isSome ha hc (hsome hevent)⟩
  | arrayBelow _ _ _ _ _ ih => exact ih.imp_right hbelow
  | containerBelow _ _ _ _ _ _ _ _ ih => exact ih.imp_right hbelow
  | fieldBelow _ _ _ _ _ ih => exact ih.imp_right hbelow

theorem DepthCounted.row_depth (h : DepthCounted levels) (agrees : mem.Agrees dictionary)
    {object : Address} {e : Emission} (he : .row e ∈ traversalEvents mem levels object [] []) :
    e.indices.length = indexDepth levels := by
  have hvalues := ((mem_traversalEvents levels he).hasValues agrees).resolve_left
    fun hfault => hfault.1 e rfl
  rw [(emission_length he).2]
  exact (length_flatMap_levelIndexNames_iff levels).mpr (h hvalues)

theorem DepthCounted.runTraversal_congr (h : DepthCounted levels) (agrees : mem.Agrees dictionary)
    {σ : Type} {sink sink' : Sink σ} (hsinks : AgreeAt sink sink' (indexDepth levels))
    (rootObject : Address) (s : σ) :
    runTraversal mem sink' rootObject levels s = runTraversal mem sink rootObject levels s := by
  rw [runTraversal, runTraversal, collect_congr agrees hsinks levels rootObject [] ([], s) h.fits]

theorem DepthCounted.depthLaw (h : DepthCounted levels) : DepthLaw dictionary levels where
  sinks agrees _ sink rootObject s :=
    h.runTraversal_congr agrees (checked_agrees sink (indexDepth levels)) rootObject s
  flat := by
    intro mem agrees rootObject maxValues out
    have hagrees : mem.withoutStrings.Agrees dictionary :=
      ⟨agrees.hasCollectionProxy, agrees.classSize, agrees.extractInnerType,
        agrees.isPrimitiveType, agrees.isStringType⟩
    exact h.runTraversal_congr hagrees (flatSink_agrees _ maxValues) rootObject out
  reference := by
    rintro mem agrees reader rfl object
    rw [RootPathReader.collectTypedFlat]
    cases hresult : collectDirect mem object reader.levels (-1) 0 {} with
    | error e => rfl
    | ok result =>
      have hnone : (result.rows.find? fun row => row.indices.length ≠ reader.indexDepth) = none := by
        rw [List.find?_eq_none]
        intro row hrow
        rw [collectDirect_eq] at hresult
        cases hrows : Batch.outcome (traversalEvents mem reader.levels object [] []) with
        | error e =>
          rw [hrows] at hresult
          cases hresult
        | ok rows =>
          rw [hrows] at hresult
          cases hresult
          rw [foldl_add_rows, List.nil_append] at hrow
          obtain ⟨e, he, rfl⟩ := List.mem_map.mp hrow
          have hlength := h.row_depth agrees (Batch.mem_of_outcome_ok hrows he)
          simp [Emission.toRow, RootPathReader.indexDepth, hlength]
      dsimp only
      rw [hnone]
  pages := by
    intro mem agrees rootObject entryId cursor next later limit page hreads hlimit hpage
    have hfits : ∀ row ∈ page.rows, row.fits (indexDepth levels) = row.isNumber := by
      intro row hrow
      obtain ⟨-, e, he, hindices⟩ := (hreads.page_rows hlimit hpage).2 row hrow
      have hlength := h.row_depth agrees he
      rw [hindices] at hlength
      unfold ReadRow.fits ReadRow.isNumber
      cases row.value with
      | number => simp only [hlength, decide_true]
      | string => rfl
    rw [Bool.eq_iff_iff, List.all_eq_true, List.all_eq_true]
    exact forall₂_congr fun row hrow => by rw [hfits row hrow]

/-! ### Paths that break the law -/

/-- The sink of one value; it keeps the indices of one that passes. -/
def firstSink (keep : List Int → Option (List Int)) : Sink (Option (List Int)) where
  startIndex _ _ _ := .ok 0
  full := Option.isSome
  value _ read indices _ := read.map fun _ => keep indices

theorem firstSink_plain (keep : List Int → Option (List Int)) :
    Plain (firstSink keep) (fun _ => True) (fun _ e => keep e.indices) where
  start _ _ _ := rfl
  value _ _ _ _ := rfl
  keeps _ _ := trivial

theorem firstSink_run (keep : List Int → Option (List Int)) (object : Address) :
    Refines (fun t m => t = m) (runTraversal mem (firstSink keep) object levels none)
      (feed (firstSink keep).full (fun _ e => keep e.indices) none
        (traversalEvents mem levels object [] [])) := by
  have h := @collect_refines _ mem _ _ _ (firstSink_plain keep) levels object [] [] [] none trivial
    (namesOk_start _ _) rfl
  rw [runTraversal]
  cases hfed : feed (firstSink keep).full (fun _ e => keep e.indices) none
      (traversalEvents mem levels object [] []) with
  | error e =>
    rw [hfed] at h
    rw [h.error]
    exact rfl
  | ok m =>
    rw [hfed] at h
    obtain ⟨t, ht, hcarries⟩ := h.ok
    rw [ht]
    exact hcarries.1

/-- A path of collections of the dictionary keeps the law only if it counts its loops once. -/
theorem DepthLaw.counted (h : DepthLaw dictionary levels)
    (hdescends : ∀ level ∈ levels.dropLast, level.klass.isSome = true)
    (hcollections : ∀ level ∈ levels, level.isContainer = true →
      ∃ klass, level.klass = some klass ∧ (dictionary.info klass).valueClass.isSome = true) :
    DepthCounted levels := by
  intro hvalues
  obtain ⟨last, hlast, hleaf⟩ := hvalues
  have hne : levels ≠ [] := by
    rintro rfl
    cases hlast
  rw [List.getLast?_eq_getLast_of_ne_nil hne] at hlast
  cases hlast
  rw [← length_flatMap_levelIndexNames_iff]
  -- Somewhere the first event is a value, and a sink takes it.
  have hfirst := @traversalEvents_of_hasLeaf dictionary (reach levels + 1) levels hne hleaf
    hdescends hcollections (reach levels + 1) [] []
  obtain ⟨e, tail, hevents⟩ := hfirst (Int.lt_succ _) (Int.lt_succ _)
  have hdepth := (emission_length (hevents ▸ List.mem_cons_self)).2
  rw [← hdepth]
  generalize hmem : constantMemory dictionary (reach levels + 1) = mem at hevents
  have agrees : mem.Agrees dictionary := hmem ▸ constantMemory_agrees dictionary _
  have htaken := @firstSink_run mem levels some (reach levels + 1)
  rw [hevents, feed_row rfl, feed_of_full rfl] at htaken
  obtain ⟨taken, htaken, rfl⟩ := htaken.ok
  -- A sink that only keeps indices of the right number is the same behind the comparison.
  have hkept := @firstSink_run mem levels
    (fun indices => if indices.length = indexDepth levels then some indices else none)
    (reach levels + 1)
  have hsame : (firstSink some).checked (indexDepth levels) =
      (firstSink fun indices => if indices.length = indexDepth levels then some indices
        else none).checked (indexDepth levels) := by
    simp only [Sink.checked, firstSink, Sink.mk.injEq, true_and]
    funext _ read indices _
    by_cases hlength : indices.length = indexDepth levels
    · simp only [hlength, if_true]
    · simp only [hlength, ne_eq, not_false_eq_true, if_true]
  rw [← h.sinks agrees, ← hsame, h.sinks agrees, htaken] at hkept
  cases hfed : feed (firstSink fun indices => if indices.length = indexDepth levels then
      some indices else none).full (fun _ e => if e.indices.length = indexDepth levels then
        some e.indices else none) none
      (traversalEvents mem levels (reach levels + 1) [] []) with
  | error e' =>
    rw [hfed] at hkept
    cases hkept.error
  | ok m =>
    rw [hfed] at hkept
    obtain ⟨t, ht, rfl⟩ := hkept.ok
    cases ht
    have hlengths := @feed_induct _ _ _ _ _
      (fun kept => ∀ indices, kept = some indices → indices.length = indexDepth levels)
      (fun _ r _ indices hr => by
        split at hr
        next hlength =>
          cases hr
          exact hlength
        next => cases hr) _ _ (fun _ hnone => by cases hnone) _ hfed
    exact hlengths _ rfl

end Law

/-! ### Resolved paths -/

section Resolved

variable {dictionary : Dictionary} {rootClass : TClass} {fields : List String}
variable {strictLayout : Bool} {levels : List ResolvedLevel}

/-- A resolved path can be descended, and its containers are collections of the dictionary. -/
theorem resolvePath_collections
    (h : resolvePath dictionary rootClass fields strictLayout = .ok levels) :
    (∀ level ∈ (levels.map (·.toPathLevel)).dropLast, level.klass.isSome = true) ∧
      ∀ level ∈ levels.map (·.toPathLevel), level.isContainer = true →
        ∃ klass, level.klass = some klass ∧ (dictionary.info klass).valueClass.isSome = true := by
  obtain ⟨-, -, hchain⟩ := resolvePath_chain h
  refine ⟨fun level hlevel => ?_, fun level hlevel hc => ?_⟩
  · rw [← List.map_dropLast] at hlevel
    obtain ⟨resolved, hresolved, rfl⟩ := List.mem_map.mp hlevel
    exact hchain.descends resolved hresolved
  · obtain ⟨resolved, hresolved, rfl⟩ := List.mem_map.mp hlevel
    obtain ⟨klass, hklass, hvalue⟩ := (hchain.collection resolved hresolved).klass hc
    exact ⟨klass, hklass, by rw [hvalue, Option.isSome_some]⟩

/-- **Depth of a resolved path.** There is an index name for every index. Values have as many
    indices as the path exactly if no level is a container and a fixed array at once, or the
    end of the path has no values; and elements are read with their types if no level asks for
    two steps at once. -/
theorem resolvePath_depth_iff
    (h : resolvePath dictionary rootClass fields strictLayout = .ok levels) :
    (indexNames (levels.map (·.toPathLevel))).length =
        indexDepth (levels.map (·.toPathLevel)) ∧
      (DepthLaw dictionary (levels.map (·.toPathLevel)) ↔
        (hasValues (levels.map (·.toPathLevel)) →
          ∀ level ∈ levels.map (·.toPathLevel), level.SingleLoop)) ∧
      ∀ (hasPointers : TClass → Bool),
        (hasValues (levels.map (·.toPathLevel)) → WellStored hasPointers levels) →
        ∀ (mem : RootMemory) (root : Address), mem.Agrees dictionary →
          TypedMemory dictionary mem hasPointers strictLayout rootClass root →
          ∀ event ∈ traversalEvents mem (levels.map (·.toPathLevel)) root [] [],
            ReadsStored event := by
  obtain ⟨-, -, hchain⟩ := resolvePath_chain h
  refine ⟨length_indexNames _, ⟨fun hlaw => ?_, fun hcounted => ?_⟩, ?_⟩
  · obtain ⟨hdescends, hcollections⟩ := resolvePath_collections h
    exact hlaw.counted hdescends hcollections
  · exact DepthCounted.depthLaw hcounted
  · intro hasPointers hwell mem root agrees typed event hevent
    have hreached := mem_traversalEvents _ hevent
    rcases hreached.hasValues agrees with ⟨-, hreads⟩ | hvalues
    · exact hreads
    have henters : Enters dictionary mem hasPointers strictLayout rootClass root none
        (some rootClass) root := by
      refine ⟨fun _ k hk => ?_, fun container hcontainer => by cases hcontainer⟩
      cases hk
      exact ⟨_, .root⟩
    exact reads_stored typed agrees hchain (hwell hvalues) (fun l hl => by cases hl) root henters
      _ _ _ hreached

end Resolved

/-! ### Events with vectors -/

/-- An event with `std::vector<int> x[2]` and `std::vector<int> y`. -/
def vectorDictionary : Dictionary where
  classes := [
    { name := "Event", size := 80
      members := some [
        { name := "x", typeName := "vector<int>", type := 500, maxIndex := [2], offset := 8
          classPointer := some 1 },
        { name := "y", typeName := "vector<int>", type := 500, offset := 56
          classPointer := some 1 }] },
    { name := "vector<int>", size := 24, valueClass := some none }]
  getClass _ := none

theorem vectorDictionary_resolves (fields : List String)
    (h : (resolvePath vectorDictionary 0 fields true).toOption.isSome = true) :
    ∃ levels, resolvePath vectorDictionary 0 fields true = .ok levels := by
  cases hlevels : resolvePath vectorDictionary 0 fields true with
  | error e =>
    rw [hlevels] at h
    cases h
  | ok levels => exact ⟨levels, rfl⟩

/-- The field of an array of vectors is counted as two loops and traversed as one: the flat
    reader throws at the first element. -/
theorem vectorArray_throws :
    ∃ levels, resolvePath vectorDictionary 0 ["x", "value"] true = .ok levels ∧
      indexDepth (levels.map (·.toPathLevel)) = 2 ∧
      ∃ mem : RootMemory, mem.Agrees vectorDictionary ∧ ∃ object : Address,
        collectTypedFlat mem object (levels.map (·.toPathLevel)) 2 (-1) {} =
          .error (depthMismatch 2 1) := by
  obtain ⟨levels, hlevels⟩ := vectorDictionary_resolves ["x", "value"] (by decide +kernel)
  refine ⟨levels, hlevels, ?_, constantMemory vectorDictionary 4096,
    constantMemory_agrees vectorDictionary 4096, 4096, ?_⟩
  · have h : (resolvePath vectorDictionary 0 ["x", "value"] true).toOption.map
        (fun levels => indexDepth (levels.map (·.toPathLevel))) = some 2 := by decide +kernel
    rw [hlevels] at h
    exact Option.some.inj h
  · have h : (resolvePath vectorDictionary 0 ["x", "value"] true).toOption.map
        (fun levels => collectTypedFlat (constantMemory vectorDictionary 4096) 4096
          (levels.map (·.toPathLevel)) 2 (-1) {}) = some (.error (depthMismatch 2 1)) := by
      decide +kernel
    rw [hlevels] at h
    exact Option.some.inj h

/-- What an event at 1000 stores: the vectors of `x` are empty and `y` has two elements. -/
def eventPlaces : List (Address × Option TClass × String) :=
  [(1000, some 0, "Event"), (1008, some 1, "vector<int>"), (1032, some 1, "vector<int>"),
    (1056, some 1, "vector<int>"), (4096, none, "int"), (4100, none, "int")]

/-- The memory of this event: nothing can be read but what is stored. -/
def eventMemory : RootMemory :=
  let stored (address : Address) (type : String) : Bool :=
    eventPlaces.any fun place => place.1 == address && place.2.2 == type
  { constantMemory vectorDictionary 0 with
    elements := fun _ address => if address = 1056 then [4096, 4100] else []
    primitive := fun address type =>
      if stored address type then .ok (.signed 7) else .error ⟨"no value"⟩
    string := fun address type => if stored address type then .ok "" else .error ⟨"no text"⟩ }

/-- The members of the event, at their offsets. -/
theorem vectorDictionary_member {streamerField : String} {klass : TClass}
    {member : StreamerMember} {offset : Int}
    (h : findStreamerField vectorDictionary streamerField 3 klass [] = some (member, offset)) :
    klass = 0 ∧ member ∈ ((vectorDictionary.info 0).members.getD []) ∧ offset = member.offset := by
  match klass with
  | 0 =>
    rw [findStreamerField] at h
    dsimp only at h
    split at h
    · cases h
    · split at h
      · rename_i found hfound
        cases h
        exact ⟨rfl, List.mem_of_find?_eq_some hfound, rfl⟩
      · cases h
  | 1 => 
    simp [findStreamerField, vectorDictionary, Dictionary.info] at h
  | n + 2 =>
    simp [findStreamerField, vectorDictionary, Dictionary.info] at h

/-- The level of a member of the event. -/
theorem vectorDictionary_level {field : String} {cumulative : Int} {member : StreamerMember}
    {level : ResolvedLevel} (hmember : member ∈ (vectorDictionary.info 0).members.getD [])
    (h : memberLevel vectorDictionary true field cumulative member member.offset = .ok level) :
    level.type = "vector<int>" ∧ level.klass = some 1 ∧ level.isPointer = false ∧
      level.elementSize = 24 ∧ level.offsetInParent = member.offset ∧
      level.fixedArray = resolveFixedArray true member.maxIndex .none := by
  have hknown : ∀ member ∈ (vectorDictionary.info 0).members.getD [],
      streamerPrimitiveType member.type member.typeName = .ok "vector<int>" ∧
        memberType true member.maxIndex "vector<int>" = .ok ("vector<int>", false, .none) ∧
        member.classPointer = some 1 ∧ member.isaPointer = false := by
    intro member hmember
    rcases List.mem_cons.mp hmember with rfl | hmember
    · exact ⟨by decide +kernel, rfl, rfl, rfl⟩
    · rw [List.mem_singleton.mp hmember]
      exact ⟨by decide +kernel, rfl, rfl, rfl⟩
  have hsize : elementSizeOf vectorDictionary false "vector<int>" (some 1) = .ok 24 := by
    decide +kernel
  obtain ⟨hdeclared, htype, hklass, hpointer⟩ := hknown member hmember
  rw [memberLevel, hdeclared] at h
  dsimp only at h
  rw [htype] at h
  dsimp only at h
  rw [hklass, hsize] at h
  dsimp only at h
  split at h
  · cases h
  · cases h
    exact ⟨rfl, rfl, hpointer, rfl, rfl, rfl⟩

/-- The members of the event are among its places. -/
theorem eventPlaces_of_member {member : StreamerMember} {level : PathLevel} {element : Address}
    (hmember : member ∈ (vectorDictionary.info 0).members.getD [])
    (hpointer : level.isPointer = false) (hsize : level.elementSize = 24)
    (harray : level.fixedArray = resolveFixedArray true member.maxIndex .none)
    (hplace : IsPlace eventMemory level (1000 + member.offset) element) :
    (element, some 1, "vector<int>") ∈ eventPlaces := by
  obtain ⟨i, hi, helement⟩ := hplace
  rw [if_neg (by rw [hpointer]; exact Bool.false_ne_true), hsize] at helement
  have hknown : ∀ member ∈ (vectorDictionary.info 0).members.getD [],
      ∀ i < ((resolveFixedArray true member.maxIndex .none).map fun array => array.length).getD 1,
        (1000 + member.offset + (i : Int) * (24 : Nat), some 1, "vector<int>") ∈ eventPlaces := by
    decide +kernel
  subst helement
  refine hknown member hmember i ?_
  rw [harray] at hi
  cases hfixed : resolveFixedArray true member.maxIndex .none with
  | none =>
    rw [hfixed] at hi
    rw [hi]
    exact Nat.one_pos
  | some array =>
    rw [hfixed] at hi
    exact hi

/-- The event stores nothing else. -/
theorem eventPlaces_of_stored {address : Address} {klass : Option TClass} {type : String}
    (h : Stored vectorDictionary eventMemory (fun _ => false) true 0 1000 address klass type) :
    (address, klass, type) ∈ eventPlaces := by
  induction h with
  | root => decide
  | @member address klass type _ _ _ _ _ _ _ _ hfind hlevel hplace ih =>
    obtain ⟨rfl, hmember, rfl⟩ := vectorDictionary_member hfind
    obtain ⟨htype, hklass, hpointer, hsize, hoffset, harray⟩ :=
      vectorDictionary_level hmember hlevel
    have haddress : address = 1000 := by
      have honly : ∀ place ∈ eventPlaces, place.2.1 = some 0 → place.1 = 1000 := by decide
      exact honly _ ih rfl
    rw [haddress, hoffset] at hplace
    rw [htype, hklass]
    exact eventPlaces_of_member hmember hpointer hsize harray hplace
  | @element address klass type valueClass element elementType _ hvalue _ helement htype ih =>
    have honly : ∀ place ∈ eventPlaces, ∀ klass, place.2.1 = some klass →
        klass = 0 ∨ klass = 1 ∧ place.2.2 = "vector<int>" := by decide
    rcases honly _ ih klass rfl with rfl | ⟨rfl, htype'⟩
    · cases hvalue
    · cases hvalue
      obtain rfl : type = "vector<int>" := htype'
      have hint : elementType = "int" := by
        rcases htype with rfl | rfl <;> decide +kernel
      have hnone : valueKlassOf vectorDictionary none "vector<int>" = none := by decide +kernel
      rw [hint, hnone]
      have hlisted : element ∈ if address = 1056 then [(4096 : Address), 4100] else [] := helement
      split at hlisted
      · rcases List.mem_cons.mp hlisted with rfl | hlisted
        · decide
        · rw [List.mem_singleton.mp hlisted]
          decide
      · cases hlisted

theorem eventMemory_agrees : eventMemory.Agrees vectorDictionary where
  hasCollectionProxy _ := by simp only [eventMemory, constantMemory]
  classSize _ := by simp only [eventMemory, constantMemory]
  extractInnerType := by simp only [eventMemory, constantMemory]
  isPrimitiveType _ := by simp only [eventMemory, constantMemory]
  isStringType := by simp only [eventMemory, constantMemory]

theorem eventMemory_typed :
    TypedMemory vectorDictionary eventMemory (fun _ => false) true 0 1000 where
  primitive h := by
    refine ⟨.signed 7, if_pos (List.any_eq_true.mpr ⟨_, eventPlaces_of_stored h, ?_⟩)⟩
    simp
  string h := by
    refine ⟨"", if_pos (List.any_eq_true.mpr ⟨_, eventPlaces_of_stored h, ?_⟩)⟩
    simp
  contiguous _ hcontiguous := by cases hcontiguous

/-- Without pointers only the loops count. -/
theorem wellStored_of_single {levels : List ResolvedLevel}
    (hsingle : ∀ level ∈ levels, level.SingleLoop)
    (hpointer : ∀ level ∈ levels, level.isPointer = false) :
    WellStored (fun _ => false) levels := by
  induction levels with
  | nil => trivial
  | cons level rest ih =>
    have hnone : level.isPointer ≠ true := by
      rw [hpointer level List.mem_cons_self]
      exact Bool.false_ne_true
    exact ⟨hsingle level List.mem_cons_self, fun h => absurd h hnone, fun _ _ _ => rfl,
      fun h => absurd h hnone, ih (fun l hl => hsingle l (List.mem_cons_of_mem _ hl))
        fun l hl => hpointer l (List.mem_cons_of_mem _ hl)⟩

/-- The vector `y` of this event: its two elements are read, and with their types. -/
theorem vector_depth :
    ∃ levels, resolvePath vectorDictionary 0 ["y", "value"] true = .ok levels ∧
      (indexNames (levels.map (·.toPathLevel))).length =
        indexDepth (levels.map (·.toPathLevel)) ∧
      DepthLaw vectorDictionary (levels.map (·.toPathLevel)) ∧
      ∀ event ∈ traversalEvents eventMemory (levels.map (·.toPathLevel)) 1000 [] [],
        ReadsStored event := by
  obtain ⟨levels, hlevels⟩ := vectorDictionary_resolves ["y", "value"] (by decide +kernel)
  obtain ⟨hnames, hlaw, hreads⟩ := resolvePath_depth_iff hlevels
  have hplain : ((resolvePath vectorDictionary 0 ["y", "value"] true).toOption.map
      fun levels => levels.all fun level =>
        decide level.SingleLoop && !level.isPointer) = some true := by decide +kernel
  rw [hlevels] at hplain
  have hplain := List.all_eq_true.mp (Option.some.inj hplain)
  simp only [Bool.and_eq_true, decide_eq_true_eq, Bool.not_eq_true'] at hplain
  refine ⟨levels, hlevels, hnames, hlaw.mpr fun _ level hlevel => ?_, ?_⟩
  · obtain ⟨resolved, hresolved, rfl⟩ := List.mem_map.mp hlevel
    exact (hplain resolved hresolved).1
  · exact hreads (fun _ => false) (fun _ => wellStored_of_single
      (fun level hlevel => (hplain level hlevel).1) fun level hlevel => (hplain level hlevel).2)
      eventMemory 1000 eventMemory_agrees eventMemory_typed

end RootLake

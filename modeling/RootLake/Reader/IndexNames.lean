import RootLake.Reader.TraversalEvents

/-!
# Index names of a path

A path has one index name for each of its indices: a container gives one, a fixed array one
for each dimension. The names of a path are joined to its signature, and the scans get them
back by reading the signature up to every comma. A level that is a container and a fixed
array has the names of both, while the traversal only adds those of the array.
-/

namespace RootLake

/-! ### Names -/

def appendLevelIndexNames (level : PathLevel) : List String :=
  (if level.isContainer then [level.name ++ "_idx"] else []) ++
    match level.fixedArray with
    | some array => arrayIndexNames level.name array.dimensions
    | none => []

def indexNames (levels : List PathLevel) : List String := levels.flatMap appendLevelIndexNames

/-- The number of names is the depth that is counted without them. -/
theorem length_indexNames (levels : List PathLevel) :
    (indexNames levels).length = indexDepth levels := by
  induction levels with
  | nil => rfl
  | cons level levels ih =>
    have hlevel : (appendLevelIndexNames level).length =
        (if level.isContainer then 1 else 0) +
          match level.fixedArray with
          | some array => max 1 array.dimensions.length
          | none => 0 := by
      rw [appendLevelIndexNames, List.length_append]
      congr 1
      · split <;> rfl
      · cases level.fixedArray with
        | none => rfl
        | some array =>
          have hpos := List.length_pos_of_ne_nil array.nonempty
          simp only [arrayIndexNames_length _ array.nonempty]
          omega
    rw [indexNames, List.flatMap_cons, List.length_append, ← indexNames, ih, hlevel]
    exact List.sum_cons.symm

/-- The level is not a container and a fixed array at once. -/
def PathLevel.SingleLoop (level : PathLevel) : Prop :=
  level.isContainer = true → level.fixedArray = none

instance (level : PathLevel) : Decidable level.SingleLoop :=
  decidable_of_iff (level.isContainer = true → level.fixedArray.isNone = true) (by
    rw [PathLevel.SingleLoop, Option.isNone_iff_eq_none])

theorem appendLevelIndexNames_eq {level : PathLevel} (h : level.SingleLoop) :
    appendLevelIndexNames level = levelIndexNames level := by
  cases ha : level.fixedArray with
  | none =>
    cases hc : level.isContainer with
    | true => simp only [appendLevelIndexNames, levelIndexNames, ha, hc, if_true, List.append_nil]
    | false => simp [appendLevelIndexNames, levelIndexNames, ha, hc]
  | some array =>
    have hc : level.isContainer = false := by
      by_contra hne
      rw [Bool.not_eq_false] at hne
      rw [h hne] at ha
      cases ha
    simp [appendLevelIndexNames, levelIndexNames, ha, hc]

theorem indexNames_eq {levels : List PathLevel} (h : ∀ level ∈ levels, level.SingleLoop) :
    indexNames levels = levels.flatMap levelIndexNames :=
  List.flatMap_congr fun level hlevel => appendLevelIndexNames_eq (h level hlevel)

/-- The names the traversal gives its sink. -/
theorem length_levelIndexNames_le (level : PathLevel) :
    (levelIndexNames level).length ≤ (appendLevelIndexNames level).length := by
  cases ha : level.fixedArray with
  | none => cases hc : level.isContainer <;> simp [appendLevelIndexNames, levelIndexNames, ha, hc]
  | some array => simp [appendLevelIndexNames, levelIndexNames, ha]

theorem length_levelIndexNames_lt {level : PathLevel} (h : ¬ level.SingleLoop) :
    (levelIndexNames level).length < (appendLevelIndexNames level).length := by
  rw [PathLevel.SingleLoop, Classical.not_imp] at h
  obtain ⟨hc, ha⟩ := h
  obtain ⟨array, ha⟩ := Option.ne_none_iff_exists'.mp ha
  simp [appendLevelIndexNames, levelIndexNames, ha, hc]

/-- The traversal has a name for every index of the path exactly if no level is counted twice. -/
theorem length_flatMap_levelIndexNames_iff (levels : List PathLevel) :
    (levels.flatMap levelIndexNames).length = indexDepth levels ↔
      ∀ level ∈ levels, level.SingleLoop := by
  have hle (levels : List PathLevel) :
      (levels.flatMap levelIndexNames).length ≤ (indexNames levels).length := by
    induction levels with
    | nil => rfl
    | cons level levels ih =>
      have := length_levelIndexNames_le level
      rw [indexNames] at ih ⊢
      simp only [List.flatMap_cons, List.length_append]
      omega
  rw [← length_indexNames]
  constructor
  · intro h level hlevel
    by_contra hloop
    obtain ⟨before, after, rfl⟩ := List.append_of_mem hlevel
    have hbefore := hle before
    have hafter := hle after
    have hlt := length_levelIndexNames_lt hloop
    simp only [indexNames, List.flatMap_append, List.flatMap_cons, List.length_append]
      at h hbefore hafter
    omega
  · intro h
    rw [indexNames_eq h]

/-! ### Signatures -/

def joinStrings (names : List String) : String := ",".intercalate names

def indexSignature (levels : List PathLevel) : String := joinStrings (indexNames levels)

/-- The pieces `std::getline` reads up to a separator: nothing is behind the last one. -/
def getLines (text : String) : List String :=
  let pieces := text.toList.splitOn ','
  (if pieces.getLast? = some [] then pieces.dropLast else pieces).map String.ofList

theorem not_mem_of_mem_splitOn {separator : Char} {text piece : List Char}
    (h : piece ∈ text.splitOn separator) : separator ∉ piece := by
  induction text generalizing piece with
  | nil =>
    rw [List.splitOn_nil] at h
    rw [List.mem_singleton.mp h]
    exact List.not_mem_nil
  | cons c text ih =>
    rw [List.splitOn_cons_eq_if_modifyHead] at h
    split at h
    next =>
      rcases List.mem_cons.mp h with rfl | h
      · exact List.not_mem_nil
      · exact ih h
    next hc =>
      obtain ⟨first, rest, hpieces⟩ :=
        List.exists_cons_of_ne_nil (List.splitOn_ne_nil separator text)
      rw [hpieces] at h ih
      rcases List.mem_cons.mp h with rfl | h
      · intro hmem
        rcases List.mem_cons.mp hmem with rfl | hmem
        · exact hc (beq_self_eq_true _)
        · exact ih List.mem_cons_self hmem
      · exact ih (List.mem_cons_of_mem _ h)

theorem comma_not_mem_getLines {text name : String} (h : name ∈ getLines text) :
    ',' ∉ name.toList := by
  obtain ⟨piece, hpiece, rfl⟩ := List.mem_map.mp h
  rw [String.toList_ofList]
  have hmem : piece ∈ text.toList.splitOn ',' := by
    split at hpiece
    · exact List.dropLast_subset _ hpiece
    · exact hpiece
  exact not_mem_of_mem_splitOn hmem

/-- Names without commas are read back from their signature. -/
theorem getLines_joinStrings {names : List String} (hcomma : ∀ name ∈ names, ',' ∉ name.toList)
    (hempty : ∀ name ∈ names, name ≠ "") : getLines (joinStrings names) = names := by
  rcases List.eq_nil_or_concat names with rfl | ⟨front, last, rfl⟩
  · rfl
  have hpieces : (joinStrings (front.concat last)).toList.splitOn ',' =
      (front.concat last).map String.toList := by
    rw [joinStrings, String.toList_intercalate]
    refine List.splitOn_intercalate ',' ?_ (by simp)
    intro piece hpiece
    obtain ⟨name, hname, rfl⟩ := List.mem_map.mp hpiece
    exact hcomma name hname
  have hlast : ((front.concat last).map String.toList).getLast? ≠ some [] := by
    rw [List.concat_eq_append, List.map_append, List.map_singleton, List.getLast?_concat]
    intro hnil
    refine hempty last (by simp) ?_
    rw [← String.toList_inj, Option.some.inj hnil]
    rfl
  rw [getLines]
  simp only [hpieces, hlast, if_false, List.map_map]
  calc (front.concat last).map (String.ofList ∘ String.toList)
      = (front.concat last).map id := List.map_congr_left fun name _ => String.ofList_toList
    _ = front.concat last := List.map_id _

end RootLake

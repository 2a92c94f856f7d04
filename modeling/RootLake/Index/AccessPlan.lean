import RootLake.Index.Checkpoint
import RootLake.Lib.Query
import RootLake.Reader.PathResolver

/-!
# Stored access plans

The levels of a path are stored as rows and read back with a query that selects the distinct
rows of all columns but the level's number. The levels survive exactly when no two of them
agree in all these columns, and their numbers fit 32 bits (`access_plan_survives_iff`): a path
that follows a pointer to its own class twice loses a level.
-/

namespace RootLake.Index

open SemanticTypes Query

/-! ### Writing -/

/-- `ArrayDimensionsText`. -/
def arrayDimensionsText : List Nat → List Char
  | [] => []
  | [dimension] => Nat.toDigits 10 dimension
  | dimension :: dimensions =>
      Nat.toDigits 10 dimension ++ 'x' :: arrayDimensionsText dimensions

/-- An access row with the columns that a plan is read back from. -/
structure StoredAccessRow extends RootAccessMetadataRow where
  cumulativeOffset : Int
  arrayDimensionsText : List Char
  deriving DecidableEq, Repr

/-- The row of a level, whose number is narrowed to 32 bits. -/
def storedAccessRow (accessPlanId : String) (level : ResolvedLevel) (levelNo : Nat) :
    StoredAccessRow where
  toRootAccessMetadataRow :=
    IndexedPathPlan.accessRow accessPlanId level.toPathLevel (levelNo % 2 ^ 32)
  cumulativeOffset := level.cumulativeOffset
  arrayDimensionsText :=
    Index.arrayDimensionsText ((level.fixedArray.map fun array => array.dimensions).getD [])

/-- The access rows of `WriteSchemaRows`. -/
def storedAccessRows (accessPlanId : String) (levels : List ResolvedLevel) :
    List StoredAccessRow :=
  levels.zipIdx.map fun level => storedAccessRow accessPlanId level.1 level.2

/-! ### Reading -/

/-- A level as it is read back, without its classes. -/
structure StoredLevel where
  name : String
  type : String
  offsetInParent : Int
  cumulativeOffset : Int
  isPointer : Bool
  isContainer : Bool
  isPrimitive : Bool
  isString : Bool
  isFixedArray : Bool
  fixedArrayLength : Nat
  arrayDimensions : List Nat
  elementSize : Nat
  deriving DecidableEq, Repr

/-- The columns that `SELECT DISTINCT` projects. -/
def projectedColumns (row : StoredAccessRow) : StoredLevel × List Char :=
  (⟨row.fieldName, row.rootType, row.offsetInParent, row.cumulativeOffset, row.isPointer,
    row.isContainer, row.isPrimitive, row.isString, row.isFixedArray, row.arrayLength, [],
    row.elementSize⟩, row.arrayDimensionsText)

/-- A result of the query of `LoadAccessPlan` on the rows of an access relation. -/
def AccessPlanResult (accessPlanId : String) (relation result : List StoredAccessRow) : Prop :=
  SelectDistinct projectedColumns (fun row => row.levelNo)
    (relation.filter fun row => row.accessPlanId = accessPlanId) result

/-- One token of the dimensions. An empty one is passed over. -/
def parseDimension (token : List Char) : Except String (List Nat) :=
  if token.isEmpty then .ok []
  else
    match stoul token with
    | .error e => .error e
    | .ok dimension => .ok [dimension % 2 ^ 32]

/-- The loop over the tokens between the letters `x`; `token` is the one read so far. -/
def parseDimensions : List Char → List Char → Except String (List Nat)
  | [], token => parseDimension token
  | c :: text, token =>
      if c = 'x' then
        match parseDimension token with
        | .error e => .error e
        | .ok dimension =>
            match parseDimensions text [] with
            | .error e => .error e
            | .ok dimensions => .ok (dimension ++ dimensions)
      else parseDimensions text (token ++ [c])

def loadLevel (row : StoredAccessRow) : Except String StoredLevel :=
  match parseDimensions row.arrayDimensionsText [] with
  | .error e => .error e
  | .ok dimensions => .ok { (projectedColumns row).1 with arrayDimensions := dimensions }

/-- The loop of `LoadAccessPlan` over a query's result. -/
def loadAccessPlan : List StoredAccessRow → Except String (List StoredLevel)
  | [] => .ok []
  | row :: rows =>
      match loadLevel row with
      | .error e => .error e
      | .ok level =>
          match loadAccessPlan rows with
          | .error e => .error e
          | .ok levels => .ok (level :: levels)

/-! ### Validating -/

/-- The columns of a level. -/
def storedLevel (level : ResolvedLevel) : StoredLevel where
  name := level.name
  type := level.type
  offsetInParent := level.offsetInParent
  cumulativeOffset := level.cumulativeOffset
  isPointer := level.isPointer
  isContainer := level.isContainer
  isPrimitive := level.isPrimitive
  isString := level.isString
  isFixedArray := level.fixedArray.isSome
  fixedArrayLength := (level.fixedArray.map fun array => array.length).getD 0
  arrayDimensions := (level.fixedArray.map fun array => array.dimensions).getD []
  elementSize := level.elementSize

/-- The comparison of one level. -/
def levelDiffers (actual : ResolvedLevel) (expected : StoredLevel) : Except String Bool :=
  let found := storedLevel actual
  if found.name ≠ expected.name then .ok true
  else
    match primitiveBaseType found.type, primitiveBaseType expected.type with
    | .ok actualType, .ok expectedType =>
        .ok (actualType ≠ expectedType || found.offsetInParent ≠ expected.offsetInParent ||
          found.isPointer ≠ expected.isPointer || found.isContainer ≠ expected.isContainer ||
          found.isFixedArray ≠ expected.isFixedArray ||
          found.fixedArrayLength ≠ expected.fixedArrayLength ||
          found.arrayDimensions ≠ expected.arrayDimensions ||
          found.elementSize ≠ expected.elementSize)
    | .error e, _ => .error e
    | _, .error e => .error e

/-- The loop of `ValidateAccessPlan` from level `i` on. -/
def validateLevels (schemaId : String) :
    Nat → List ResolvedLevel → List StoredLevel → Except String Unit
  | i, actual :: actuals, expected :: expecteds =>
      match levelDiffers actual expected with
      | .error e => .error e
      | .ok true =>
          .error ("ROOT streamer layout changed at level " ++ toString i ++ " for schema " ++
            schemaId)
      | .ok false => validateLevels schemaId (i + 1) actuals expecteds
  | _, _, _ => .ok ()

/-- `ValidateAccessPlan`. -/
def validateAccessPlan (schemaId : String) (expected : List StoredLevel)
    (actual : List ResolvedLevel) : Except String Unit :=
  if actual.length ≠ expected.length then
    .error ("ROOT access plan depth differs from indexed schema " ++ schemaId)
  else validateLevels schemaId 0 actual expected

/-! ### Rows give their levels back -/

theorem parseDimensions_digits {token rest : List Char} (digits : List Char)
    (h : ∀ c ∈ digits, c ≠ 'x') :
    parseDimensions (digits ++ rest) token = parseDimensions rest (token ++ digits) := by
  induction digits generalizing token with
  | nil => rw [List.nil_append, List.append_nil]
  | cons c digits ih =>
    rw [List.cons_append, parseDimensions, if_neg (h c List.mem_cons_self),
      ih fun d hd => h d (List.mem_cons_of_mem _ hd), List.append_assoc, List.singleton_append]

theorem parseDimension_toDigits {dimension : Nat} (h : dimension < 2 ^ 32) :
    parseDimension (Nat.toDigits 10 dimension) = .ok [dimension] := by
  rw [parseDimension, if_neg (by simp [Nat.toDigits_ne_nil]), stoul_toDigits (by omega)]
  dsimp only
  rw [Nat.mod_eq_of_lt h]

/-- The dimensions' text is read back. -/
theorem parseDimensions_text (dimensions : List Nat) (h : ∀ d ∈ dimensions, d < 2 ^ 32) :
    parseDimensions (arrayDimensionsText dimensions) [] = .ok dimensions := by
  have hx (d : Nat) : ∀ c ∈ Nat.toDigits 10 d, c ≠ 'x' := by
    rintro c hc rfl
    exact absurd (Nat.isDigit_of_mem_toDigits (by decide) (by decide) hc) (by decide)
  induction dimensions with
  | nil => rfl
  | cons d dimensions ih =>
    have hd := parseDimension_toDigits (h d List.mem_cons_self)
    cases dimensions with
    | nil =>
      rw [arrayDimensionsText, ← List.append_nil (Nat.toDigits 10 d),
        parseDimensions_digits _ (hx d), List.nil_append, parseDimensions, hd]
    | cons e dimensions =>
      rw [arrayDimensionsText, parseDimensions_digits _ (hx d), List.nil_append, parseDimensions,
        if_pos rfl, hd]
      · dsimp only
        rw [ih fun f hf => h f (List.mem_cons_of_mem _ hf)]
        rfl
      · simp

section Rows

variable {accessPlanId schemaId : String} {levels : List ResolvedLevel}

/-- What the query sees of a level. -/
def projectedLevel (level : StoredLevel) : StoredLevel × List Char :=
  ({ level with arrayDimensions := [] }, arrayDimensionsText level.arrayDimensions)

theorem projectedColumns_row (level : ResolvedLevel) (levelNo : Nat) :
    projectedColumns (storedAccessRow accessPlanId level levelNo) =
      projectedLevel (storedLevel level) :=
  rfl

theorem storedLevel_dimensions_lt (level : ResolvedLevel) :
    ∀ d ∈ (storedLevel level).arrayDimensions, d < 2 ^ 32 := by
  intro d hd
  rw [storedLevel] at hd
  cases harray : level.fixedArray with
  | none =>
    rw [harray] at hd
    exact absurd hd List.not_mem_nil
  | some array =>
    rw [harray] at hd
    exact (array.positive d hd).2

theorem loadLevel_row (level : ResolvedLevel) (levelNo : Nat) :
    loadLevel (storedAccessRow accessPlanId level levelNo) = .ok (storedLevel level) := by
  have htext : parseDimensions
      (storedAccessRow accessPlanId level levelNo).arrayDimensionsText [] =
      .ok (storedLevel level).arrayDimensions :=
    parseDimensions_text _ (storedLevel_dimensions_lt level)
  rw [loadLevel, htext]
  rfl

/-- Levels that the query cannot tell apart are equal. -/
theorem projectedLevel_injective {level other : ResolvedLevel}
    (h : projectedLevel (storedLevel level) = projectedLevel (storedLevel other)) :
    storedLevel level = storedLevel other := by
  obtain ⟨hcolumns, htext⟩ := Prod.mk.inj h
  have hlevel := parseDimensions_text _ (storedLevel_dimensions_lt level)
  rw [htext, parseDimensions_text _ (storedLevel_dimensions_lt other)] at hlevel
  have hdimensions := Except.ok.inj hlevel
  generalize storedLevel level = stored at hcolumns hdimensions ⊢
  generalize storedLevel other = otherStored at hcolumns hdimensions ⊢
  cases stored
  cases otherStored
  simp_all

theorem mem_storedAccessRows {row : StoredAccessRow} :
    row ∈ storedAccessRows accessPlanId levels ↔
      ∃ i, ∃ h : i < levels.length, row = storedAccessRow accessPlanId levels[i] i := by
  rw [storedAccessRows, List.mem_map]
  constructor
  · rintro ⟨⟨level, i⟩, hmem, rfl⟩
    obtain ⟨h, hlevel⟩ := List.mem_zipIdx' hmem
    exact ⟨i, h, by rw [hlevel]⟩
  · rintro ⟨i, h, rfl⟩
    exact ⟨(levels[i], i), List.mem_zipIdx_iff_getElem?.mpr (by simp [h]), rfl⟩

/-- Rows of a plan load as their levels, whichever of them are there. -/
theorem loadAccessPlan_rows {rows : List StoredAccessRow} {loaded : List StoredLevel}
    (hrows : ∀ row ∈ rows, row ∈ storedAccessRows accessPlanId levels)
    (h : loadAccessPlan rows = .ok loaded) :
    loaded.map projectedLevel = rows.map projectedColumns := by
  induction rows generalizing loaded with
  | nil => rw [← Except.ok.inj h]; rfl
  | cons row rows ih =>
    obtain ⟨i, hi, rfl⟩ := mem_storedAccessRows.mp (hrows row List.mem_cons_self)
    rw [loadAccessPlan, loadLevel_row] at h
    dsimp only at h
    cases hmore : loadAccessPlan rows with
    | error e =>
      rw [hmore] at h
      exact absurd h (by simp)
    | ok more =>
      rw [hmore] at h
      rw [← Except.ok.inj h, List.map_cons, List.map_cons, projectedColumns_row,
        ih (fun row hrow => hrows row (List.mem_cons_of_mem _ hrow)) hmore]

theorem loadAccessPlan_all (levels : List ResolvedLevel) (first : Nat) :
    loadAccessPlan ((levels.zipIdx first).map fun level =>
        storedAccessRow accessPlanId level.1 level.2) = .ok (levels.map storedLevel) := by
  induction levels generalizing first with
  | nil => rfl
  | cons level levels ih =>
    rw [List.zipIdx_cons, List.map_cons, loadAccessPlan, loadLevel_row]
    dsimp only
    rw [ih, List.map_cons]

/-! ### Levels validate against themselves -/

theorem validateLevels_self (levels : List ResolvedLevel)
    (h : ∀ level ∈ levels, ∃ base, primitiveBaseType level.type = .ok base) (i : Nat) :
    validateLevels schemaId i levels (levels.map storedLevel) = .ok () := by
  induction levels generalizing i with
  | nil => rfl
  | cons level levels ih =>
    obtain ⟨base, hbase⟩ := h level List.mem_cons_self
    have hsame : levelDiffers level (storedLevel level) = .ok false := by
      have htype : primitiveBaseType (storedLevel level).type = .ok base := hbase
      rw [levelDiffers, if_neg (not_not.mpr rfl), htype]
      simp
    rw [List.map_cons, validateLevels, hsame]
    exact ih (fun other hother => h other (List.mem_cons_of_mem _ hother)) (i + 1)

end Rows

/-! ### Which plans survive -/

/-- However often the rows of the levels are stored, and whichever result the query gives, the
    levels are read back in their order and number and validate against the levels. -/
def Survives (accessPlanId schemaId : String) (levels : List ResolvedLevel) : Prop :=
  ∀ relation result : List StoredAccessRow,
    (∀ row, row.accessPlanId = accessPlanId →
      (row ∈ relation ↔ row ∈ storedAccessRows accessPlanId levels)) →
    AccessPlanResult accessPlanId relation result →
    loadAccessPlan result = .ok (levels.map storedLevel) ∧
      validateAccessPlan schemaId (levels.map storedLevel) levels = .ok ()

section Survives

variable {accessPlanId schemaId : String} {levels : List ResolvedLevel}

theorem rows_of_plan {row : StoredAccessRow} (h : row ∈ storedAccessRows accessPlanId levels) :
    row.accessPlanId = accessPlanId := by
  obtain ⟨i, hi, rfl⟩ := mem_storedAccessRows.mp h
  rfl

theorem map_projectedColumns_rows :
    (storedAccessRows accessPlanId levels).map projectedColumns =
      (levels.map storedLevel).map projectedLevel := by
  have hfst : (projectedColumns ∘ fun level : ResolvedLevel × Nat =>
      storedAccessRow accessPlanId level.1 level.2) =
      (projectedLevel ∘ storedLevel) ∘ Prod.fst := rfl
  rw [storedAccessRows, List.map_map, hfst, ← List.map_map, List.zipIdx_map_fst, List.map_map]

theorem nodup_projected (h : (levels.map storedLevel).Nodup) :
    ((levels.map storedLevel).map projectedLevel).Nodup := by
  refine List.Nodup.map_on (fun a ha b hb heq => ?_) h
  obtain ⟨level, -, rfl⟩ := List.mem_map.mp ha
  obtain ⟨other, -, rfl⟩ := List.mem_map.mp hb
  exact projectedLevel_injective heq

/-- The numbers of the levels increase while they fit 32 bits. -/
theorem levelNo_strict (h : levels.length ≤ 2 ^ 32) :
    (storedAccessRows accessPlanId levels).Pairwise fun a b => a.levelNo < b.levelNo := by
  rw [storedAccessRows, List.pairwise_iff_getElem]
  intro i j hi hj hij
  simp only [List.length_map, List.length_zipIdx] at hi hj
  simp only [List.getElem_map, List.getElem_zipIdx, storedAccessRow, IndexedPathPlan.accessRow]
  rw [Nat.mod_eq_of_lt (by omega), Nat.mod_eq_of_lt (by omega)]
  omega

theorem survives_of_distinct (hbase : ∀ level ∈ levels, HasBaseType level)
    (hdistinct : (levels.map storedLevel).Nodup) (hlength : levels.length ≤ 2 ^ 32) :
    Survives accessPlanId schemaId levels := by
  intro relation result hrelation hresult
  have hrows : result = storedAccessRows accessPlanId levels := by
    refine hresult.eq_of_strict (fun row => ?_) ?_ (levelNo_strict hlength)
    · rw [List.mem_filter, decide_eq_true_eq]
      exact ⟨fun h => (hrelation row h.2).mp h.1,
        fun h => ⟨(hrelation row (rows_of_plan h)).mpr h, rows_of_plan h⟩⟩
    · rw [map_projectedColumns_rows]
      exact nodup_projected hdistinct
  rw [hrows]
  refine ⟨loadAccessPlan_all levels 0, ?_⟩
  rw [validateAccessPlan, if_neg (by simp)]
  exact validateLevels_self levels hbase 0

theorem distinct_of_survives (h : Survives accessPlanId schemaId levels) :
    (levels.map storedLevel).Nodup ∧ levels.length ≤ 2 ^ 32 := by
  obtain ⟨result, hresult⟩ := exists_selectDistinct projectedColumns
    (fun row : StoredAccessRow => row.levelNo) (storedAccessRows accessPlanId levels)
  have hfilter : (storedAccessRows accessPlanId levels).filter
      (fun row => row.accessPlanId = accessPlanId) = storedAccessRows accessPlanId levels :=
    List.filter_eq_self.mpr fun row hrow => by simpa using rows_of_plan hrow
  have hload := (h (storedAccessRows accessPlanId levels) result (fun _ _ => Iff.rfl)
    (by rw [AccessPlanResult, hfilter]; exact hresult)).1
  have hprojected := loadAccessPlan_rows hresult.mem hload
  have hnodup : (levels.map storedLevel).Nodup :=
    List.Nodup.of_map projectedLevel (hprojected ▸ hresult.nodup)
  refine ⟨hnodup, ?_⟩
  by_contra hlong
  have hlength : result.length = levels.length := by
    have := congrArg List.length hprojected
    simpa using this.symm
  have hlevelNo (k : Nat) (hk : k < result.length) : result[k].levelNo = k % 2 ^ 32 := by
    obtain ⟨i, hi, hrow⟩ := mem_storedAccessRows.mp (hresult.mem _ (List.getElem_mem hk))
    have hcolumns : projectedColumns result[k] = projectedLevel (storedLevel levels[k]) := by
      have hget := List.getElem_of_eq hprojected (i := k) (by simp; omega)
      simpa using hget.symm
    rw [hrow, projectedColumns_row] at hcolumns
    have hsame := projectedLevel_injective hcolumns
    have hi' : i < (levels.map storedLevel).length := by simpa using hi
    have hk' : k < (levels.map storedLevel).length := by simp; omega
    have hget : (levels.map storedLevel)[i] = (levels.map storedLevel)[k] := by simpa using hsame
    rw [hrow, ← (List.Nodup.getElem_inj_iff hnodup).mp hget]
    rfl
  have hsorted := List.pairwise_iff_getElem.mp hresult.sorted (2 ^ 32 - 1) (2 ^ 32) (by omega)
    (by omega) (by decide)
  rw [hlevelNo _ (by omega), hlevelNo _ (by omega)] at hsorted
  exact absurd hsorted (by decide)

end Survives

/-- The levels of a resolved path survive being stored exactly when no two of them agree in all
columns and their numbers fit 32 bits. -/
theorem access_plan_survives_iff {dictionary : Dictionary} {rootClass : TClass}
    {fields : List String} {levels : List ResolvedLevel}
    (h : resolvePath dictionary rootClass fields true = .ok levels)
    (accessPlanId schemaId : String) :
    Survives accessPlanId schemaId levels ↔
      (levels.map storedLevel).Nodup ∧ levels.length ≤ 2 ^ 32 :=
  ⟨distinct_of_survives, fun hlevels =>
    survives_of_distinct (resolvePath_hasBaseType h) hlevels.1 hlevels.2⟩

/-! ### A list of nodes -/

/-- A node with a value and a pointer to the next node. -/
def nodeDictionary : Dictionary where
  classes := [{
    name := "Node"
    size := 16
    members := some [
      { name := "v", typeName := "int", type := 3, offset := 0 },
      { name := "next", typeName := "Node*", type := 64, isaPointer := true, offset := 8,
        classPointer := some 0 }] }]
  getClass _ := none

/-- The columns of the levels of a path of nodes. -/
def nodeLevels (fields : List String) : Except String (List StoredLevel) :=
  (resolvePath nodeDictionary 0 fields true).map (List.map storedLevel)

def nextLevel : StoredLevel :=
  ⟨"next", "Node*", 8, 8, true, false, false, false, false, 0, [], 16⟩

def valueOfNode : StoredLevel :=
  ⟨"v", "int", 0, 0, false, false, true, false, false, 0, [], 4⟩

example : nodeLevels ["next", "v"] = .ok [nextLevel, valueOfNode] := by decide +kernel

/-- Following a pointer twice gives a path whose levels do not survive. -/
theorem self_pointer_lost :
    ∃ levels, resolvePath nodeDictionary 0 ["next", "next", "v"] true = .ok levels ∧
      ¬ Survives "plan" "schema" levels := by
  have hlevels : nodeLevels ["next", "next", "v"] = .ok [nextLevel, nextLevel, valueOfNode] := by
    decide +kernel
  rw [nodeLevels] at hlevels
  cases hpath : resolvePath nodeDictionary 0 ["next", "next", "v"] true with
  | error e =>
    rw [hpath] at hlevels
    exact absurd hlevels (by simp [Except.map])
  | ok levels =>
    rw [hpath] at hlevels
    refine ⟨levels, rfl, fun h => ?_⟩
    have hnodup := (distinct_of_survives h).1
    rw [Except.ok.inj hlevels] at hnodup
    exact absurd hnodup (by decide)

/-- Following it once does not lose a level. -/
theorem self_pointer_once :
    ∃ levels, resolvePath nodeDictionary 0 ["next", "v"] true = .ok levels ∧
      Survives "plan" "schema" levels := by
  have hlevels : nodeLevels ["next", "v"] = .ok [nextLevel, valueOfNode] := by decide +kernel
  rw [nodeLevels] at hlevels
  cases hpath : resolvePath nodeDictionary 0 ["next", "v"] true with
  | error e =>
    rw [hpath] at hlevels
    exact absurd hlevels (by simp [Except.map])
  | ok levels =>
    rw [hpath] at hlevels
    have hstored : levels.map storedLevel = [nextLevel, valueOfNode] := Except.ok.inj hlevels
    refine ⟨levels, rfl, (access_plan_survives_iff hpath "plan" "schema").mpr ⟨?_, ?_⟩⟩
    · rw [hstored]
      decide
    · rw [← List.length_map storedLevel, hstored]
      decide

end RootLake.Index

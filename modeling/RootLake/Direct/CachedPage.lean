/-
  RootLake/Direct/CachedPage.lean
  ===============================
  **The rows of a decoded page of the direct scan.**

  A page holds one `ReadResult` for each column.  Row `elem` of the page shows the value
  each result has at `elem`, and the virtual index columns show a position of the index
  tuples of some result: the first one whose name is the column's, both without `_idx`.
  Pushed filters see the same row through `cachedScalar`, and the values are written in the
  width of their columns.  Only the scalars of the filters can have an undefined cast, here
  (`cachedRow_defined_iff`) and in the scan of a primitive tree
  (`primitiveTreeRow_defined_iff`).
-/
import RootLake.Dataset.ScalarActual
import RootLake.Reader.Cursor

namespace RootLake.Direct

open Ieee Dataset

/-- A column of the direct scan; `logicalType` is the SQL type of its ROOT type. -/
structure RootScanColumn where
  name : String
  rootClassName : String := ""
  logicalType : LogicalTypeId := .sqlnull
  levels : List PathLevel := []
  indexSignature : String := ""
  isVirtualIndex : Bool := false

/-- The columns of `RootScanBindData`. -/
structure RootScanColumns where
  columns : List RootScanColumn
  sourceIdColumn : Option Nat := none
  sourcePathColumn : Option Nat := none

/-- DuckDB's row id is no position of a column. -/
def columnIdentifierRowId : Nat := 2 ^ 64 - 1

/-- The page a worker has decoded, with the file it is from. -/
structure CachedPage where
  entry : UInt64
  sourceId : UInt64 := 0
  sourcePath : String := ""
  results : List ReadResult
  indexSources : List (Option (Nat × Nat)) := []

/-! ### Index columns -/

def withoutIndexSuffix (name : String) : String :=
  let chars := name.toList
  if chars.length > 4 ∧ chars.drop (chars.length - 4) = "_idx".toList then
    String.ofList (chars.take (chars.length - 4))
  else name

/-- The position of a result's index names that has the column's name, and that row `row` has
    an index for. -/
def findIndexPosition (result : ReadResult) (name : String) (row : Option Nat) : Option Nat :=
  result.vectorNames.zipIdx.findSome? fun (vectorName, position) =>
    if withoutIndexSuffix vectorName = name ∧
        ∀ r ∈ row, position < ((result.rows.map (·.indices)).getD r []).length then
      some position
    else none

/-- The candidates are the value columns of the same class whose results have rows. -/
def findCachedIndexSource (bind : RootScanColumns) (results : List ReadResult)
    (columnId : Nat) (row : Option Nat) : Option (Nat × Nat) :=
  match bind.columns[columnId]? with
  | none => none
  | some column =>
      bind.columns.zipIdx.findSome? fun (candidate, candidateId) =>
        if candidate.isVirtualIndex || candidate.levels.isEmpty ||
            candidate.rootClassName != column.rootClassName then none
        else
          match results[candidateId]? with
          | none => none
          | some result =>
              if result.rows.isEmpty || row.any fun r => decide (result.rows.length ≤ r) then none
              else
                (findIndexPosition result (withoutIndexSuffix column.name) row).map
                  fun position => (candidateId, position)

/-- The index at a position of the row of a result. -/
def indexAt (results : List ReadResult) (source : Nat × Nat) (elem : Nat) : Option Int := do
  let result ← results[source.1]?
  let row ← result.rows[elem]?
  row.indices[source.2]?

def resolveCachedIndexValue (bind : RootScanColumns) (page : CachedPage) (columnId elem : Nat) :
    Option Int :=
  match (page.indexSources.getD columnId none).bind (indexAt page.results · elem) with
  | some index => some index
  | none =>
      (findCachedIndexSource bind page.results columnId (some elem)).bind
        (indexAt page.results · elem)

/-- The sources of the virtual index columns among `columnIds`, once for a page. -/
def resolveIndexSources (bind : RootScanColumns) (results : List ReadResult)
    (columnIds : List Nat) : List (Option (Nat × Nat)) :=
  bind.columns.zipIdx.map fun (column, columnId) =>
    if column.isVirtualIndex && columnIds.contains columnId then
      findCachedIndexSource bind results columnId none
    else none

/-! ### Rows -/

/-- `PrimitiveScalarActual`. -/
def primitiveScalarActual (type : LogicalTypeId) (value : RootPrimitiveValue) :
    RootScalarActual := datasetPrimitiveActual type value

def cachedScalar (bind : RootScanColumns) (page : CachedPage) (elem columnId : Nat) :
    RootScalarActual :=
  if columnId = columnIdentifierRowId then .signed page.entry.toInt64 .bigint
  else
    match bind.columns[columnId]? with
    | none => .null .sqlnull
    | some column =>
        if column.name = "entry_id" ∧ column.levels.isEmpty then
          .signed page.entry.toInt64 .bigint
        else if bind.sourceIdColumn = some columnId then .event page.sourceId
        else if bind.sourcePathColumn = some columnId then .string page.sourcePath
        else if column.isVirtualIndex then
          .index ((resolveCachedIndexValue bind page columnId elem).map Int32.ofInt)
        else
          match page.results[columnId]?.bind (·.rows[elem]?) with
          | none => .null column.logicalType
          | some row =>
              match row.value with
              | .string value => .string value
              | .number value => primitiveScalarActual column.logicalType value

/-- What a vector of the result holds in one row. -/
inductive ScanCell where
  | invalid
  | entryId (value : Int64)
  | sourceId (value : UInt64)
  | sourcePath (value : String)
  | index (value : Int)
  | string (value : String)
  | value (value : ScalarValue)
  deriving DecidableEq, Repr

/-- A value in the column of its type; a string only in a VARCHAR column. -/
def writeValue (type : LogicalTypeId) : SinkValue → Except ConversionFault ScanCell
  | .string value => .ok (if type = .varchar then .string value else .invalid)
  | .number value =>
      (fun cell => (cell.map ScanCell.value).getD .invalid) <$> writeNumericValue type value

/-- One cell of `ProcessCachedEntry`. -/
def cachedCell (bind : RootScanColumns) (page : CachedPage) (elem columnId : Nat) :
    Except ConversionFault ScanCell :=
  if columnId = columnIdentifierRowId then .ok (.entryId page.entry.toInt64)
  else
    match bind.columns[columnId]? with
    | none => .ok .invalid
    | some column =>
        if column.name = "entry_id" ∧ column.levels.isEmpty then
          .ok (.entryId page.entry.toInt64)
        else if bind.sourceIdColumn = some columnId then .ok (.sourceId page.sourceId)
        else if bind.sourcePathColumn = some columnId then .ok (.sourcePath page.sourcePath)
        else if column.isVirtualIndex then
          match resolveCachedIndexValue bind page columnId elem with
          | none => .ok .invalid
          | some index => .ok (.index index)
        else
          match page.results[columnId]?.bind (·.rows[elem]?) with
          | none => .ok .invalid
          | some row => writeValue column.logicalType row.value

theorem writeValue_defined (type : LogicalTypeId) (value : SinkValue) :
    CastsDefined (writeValue type value) := by
  cases value with
  | string value => exact CastsDefined.ok _
  | number value => exact CastsDefined.map (writeNumericValue_defined type value)

theorem cachedCell_defined (bind : RootScanColumns) (page : CachedPage) (elem columnId : Nat) :
    CastsDefined (cachedCell bind page elem columnId) := by
  unfold cachedCell
  split
  · exact CastsDefined.ok _
  split
  · exact CastsDefined.ok _
  split
  · exact CastsDefined.ok _
  split
  · exact CastsDefined.ok _
  split
  · exact CastsDefined.ok _
  split
  · split <;> exact CastsDefined.ok _
  split
  · exact CastsDefined.ok _
  · exact writeValue_defined _ _

/-- The filters and the output columns of `RootScanGlobalState`. -/
structure RootScanFilters (Filter : Type) where
  entryFilters : List (RootFilterBinding Filter)
  elementFilters : List (RootFilterBinding Filter)
  outputColumnIds : List Nat

section

variable {Filter : Type} (select : SelectExpression Filter)

/-- Row `elem` of `ProcessCachedEntry`: the filters of the event, those of the element, and the
    cells. -/
def cachedRow (bind : RootScanColumns) (global : RootScanFilters Filter)
    (page : CachedPage) (elem : Nat) : Except ConversionFault (Option (List ScanCell)) := do
  if ← evaluateFilters .checked select (cachedScalar bind page 0) global.entryFilters then
    if ← evaluateFilters .checked select (cachedScalar bind page elem) global.elementFilters then
      let cells ← global.outputColumnIds.mapM (cachedCell bind page elem)
      pure (some cells)
    else pure none
  else pure none

/-- The scalars of the filters that a row reaches are in range. -/
def CachedRowInRange (bind : RootScanColumns) (global : RootScanFilters Filter)
    (page : CachedPage) (elem : Nat) : Prop :=
  ReachedInRange select (cachedScalar bind page 0) global.entryFilters ∧
    (evaluateFilters .checked select (cachedScalar bind page 0) global.entryFilters = .ok true →
      ReachedInRange select (cachedScalar bind page elem) global.elementFilters)

/-- Filters first, then cells: what can be undefined is a filter that is reached. -/
theorem castsDefined_filtered {β : Type} {x : Except ConversionFault Bool}
    {y : Except ConversionFault (Option β)} :
    CastsDefined (do if ← x then y else pure none) ↔
      CastsDefined x ∧ (x = .ok true → CastsDefined y) := by
  cases x with
  | error fault =>
      refine ⟨fun h => ⟨fun value hvalue => ?_, fun h => nomatch h⟩, fun h => ?_⟩
      · cases hvalue
        exact h value rfl
      · intro value hvalue
        cases hvalue
        exact h.1 value rfl
  | ok passes =>
      cases passes with
      | true => exact ⟨fun h => ⟨CastsDefined.ok _, fun _ => h⟩, fun h => h.2 rfl⟩
      | false =>
          exact iff_of_true (CastsDefined.ok _) ⟨CastsDefined.ok _, fun h => nomatch h⟩

theorem cachedRow_defined_iff (bind : RootScanColumns) (global : RootScanFilters Filter)
    (page : CachedPage) (elem : Nat) :
    CastsDefined (cachedRow select bind global page elem) ↔
      CachedRowInRange select bind global page elem := by
  have hcells : CastsDefined (do
      let cells ← global.outputColumnIds.mapM (cachedCell bind page elem)
      pure (some cells)) := by
    apply CastsDefined.bind
      (CastsDefined.mapM fun columnId _ => cachedCell_defined bind page elem columnId)
    intro cells _
    exact CastsDefined.ok _
  rw [cachedRow, castsDefined_filtered, castsDefined_filtered, CachedRowInRange,
    evaluateFilters_defined_iff, evaluateFilters_defined_iff]
  exact and_congr_right fun _ => imp_congr_right fun _ =>
    and_iff_left_of_imp fun _ _ => hcells

/-! ### Primitive trees -/

/-- The leaves of an entry of a tree without objects, by column. -/
structure PrimitiveTreeEntry where
  entry : UInt64
  sourceId : UInt64 := 0
  sourcePath : String := ""
  leaves : List (Option RootPrimitiveValue)

/-- Column `0` is the entry id. -/
def primitiveTreeScalar (bind : RootScanColumns) (entry : PrimitiveTreeEntry) (columnId : Nat) :
    RootScalarActual :=
  if columnId = 0 ∨ columnId = columnIdentifierRowId then .signed entry.entry.toInt64 .bigint
  else if bind.sourceIdColumn = some columnId then .event entry.sourceId
  else if bind.sourcePathColumn = some columnId then .string entry.sourcePath
  else
    match bind.columns[columnId]?, entry.leaves.getD columnId none with
    | some column, some value => primitiveScalarActual column.logicalType value
    | _, _ => .null .sqlnull

def primitiveTreeCell (bind : RootScanColumns) (entry : PrimitiveTreeEntry) (columnId : Nat) :
    Except ConversionFault ScanCell :=
  if columnId = 0 ∨ columnId = columnIdentifierRowId then .ok (.entryId entry.entry.toInt64)
  else if bind.sourceIdColumn = some columnId then .ok (.sourceId entry.sourceId)
  else if bind.sourcePathColumn = some columnId then .ok (.sourcePath entry.sourcePath)
  else
    match bind.columns[columnId]?, entry.leaves.getD columnId none with
    | some column, some value => writeValue column.logicalType (.number value)
    | _, _ => .ok .invalid

theorem primitiveTreeCell_defined (bind : RootScanColumns) (entry : PrimitiveTreeEntry)
    (columnId : Nat) : CastsDefined (primitiveTreeCell bind entry columnId) := by
  unfold primitiveTreeCell
  split
  · exact CastsDefined.ok _
  split
  · exact CastsDefined.ok _
  split
  · exact CastsDefined.ok _
  split
  · exact writeValue_defined _ _
  · exact CastsDefined.ok _

/-- One entry of `ProcessPrimitiveTree`. -/
def primitiveTreeRow (bind : RootScanColumns) (filters : List (RootFilterBinding Filter))
    (outputColumnIds : List Nat) (entry : PrimitiveTreeEntry) :
    Except ConversionFault (Option (List ScanCell)) := do
  if ← evaluateFilters .checked select (primitiveTreeScalar bind entry) filters then
    let cells ← outputColumnIds.mapM (primitiveTreeCell bind entry)
    pure (some cells)
  else pure none

theorem primitiveTreeRow_defined_iff (bind : RootScanColumns)
    (filters : List (RootFilterBinding Filter)) (outputColumnIds : List Nat)
    (entry : PrimitiveTreeEntry) :
    CastsDefined (primitiveTreeRow select bind filters outputColumnIds entry) ↔
      ReachedInRange select (primitiveTreeScalar bind entry) filters := by
  have hcells : CastsDefined (do
      let cells ← outputColumnIds.mapM (primitiveTreeCell bind entry)
      pure (some cells)) := by
    apply CastsDefined.bind
      (CastsDefined.mapM fun columnId _ => primitiveTreeCell_defined bind entry columnId)
    intro cells _
    exact CastsDefined.ok _
  rw [primitiveTreeRow, castsDefined_filtered, evaluateFilters_defined_iff]
  exact and_iff_left_of_imp fun _ _ => hcells

end

/-! ### Undefined casts of the scans -/

/-- No value that a scan filters or writes meets an undefined cast exactly if the floating values
    shown to the filters it reaches truncate into both 64-bit integer types. -/
theorem scans_defined_iff {Filter : Type} (select : SelectExpression Filter) :
    (∀ (bind : DatasetBindData) (elementFilters : List (RootFilterBinding Filter))
        (outputColumnIds : List OutputColumn) (row : DatasetRow),
      CastsDefined (filterAndStore select bind elementFilters outputColumnIds row) ↔
        ReachedInRange select (datasetRowActual bind row) elementFilters) ∧
    (∀ (bind : RootScanColumns) (global : RootScanFilters Filter) (page : CachedPage)
        (elem : Nat),
      CastsDefined (cachedRow select bind global page elem) ↔
        CachedRowInRange select bind global page elem) ∧
    (∀ (bind : RootScanColumns) (filters : List (RootFilterBinding Filter))
        (outputColumnIds : List Nat) (entry : PrimitiveTreeEntry),
      CastsDefined (primitiveTreeRow select bind filters outputColumnIds entry) ↔
        ReachedInRange select (primitiveTreeScalar bind entry) filters) :=
  ⟨filterAndStore_defined_iff select, cachedRow_defined_iff select,
    primitiveTreeRow_defined_iff select⟩

/-- `value < 0` on a DOUBLE column that holds `-1`. -/
theorem negative_value_cast_undefined :
    ¬ ∀ (select : SelectExpression Unit) (bind : DatasetBindData)
        (elementFilters : List (RootFilterBinding Unit)) (outputColumnIds : List OutputColumn)
        (row : DatasetRow),
      CastsDefined (filterAndStore select bind elementFilters outputColumnIds row) := by
  intro h
  have hdefined := h (fun _ value => value = .double (.ofInt (-1))) { valueType := .double }
    [⟨1, ()⟩] [.column 1] ⟨0, [], .double (.ofInt (-1)), "data.root", 0⟩
  exact hdefined (.ofInt (-1)) (by decide +kernel)

end RootLake.Direct

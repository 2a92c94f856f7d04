/-
  RootLake/Dataset/Filters.lean
  =============================
  **Row filters of a dataset scan.**

  Pushed filters are bound to output columns and split into entry filters, evaluated
  once per entry, and element filters, evaluated once per value.  DuckDB's expression
  executor is a parameter (`Evaluate`); what this program decides is which scalar of a
  row each filter is given, and that a row passes when every filter does.
-/
import RootLake.Dataset.PathPredicates
import RootLake.Dataset.Task

namespace RootLake.Dataset

open Ieee

/-- The exact scalars handed to a table filter. -/
inductive RootScalarActual where
  | null (type : LogicalTypeId)
  | event (value : UInt64)
  | index (value : Option Int32)
  | signed (value : Int64) (type : LogicalTypeId)
  | unsigned (value : UInt64) (type : LogicalTypeId)
  | string (value : String)
  | numeric (type : LogicalTypeId) (value : Double)
  deriving DecidableEq, Repr

/-- `RootFilterEvaluator::Evaluate`: DuckDB's verdict on a filter and one scalar. -/
abbrev Evaluate (Filter : Type) := Filter → RootScalarActual → Bool

structure RootFilterBinding (Filter : Type) where
  columnId : Nat
  filter : Filter
  deriving DecidableEq, Repr

/-- The bind-time plan of `read_root_dataset`, as far as planning and scanning read it.
    The output columns are `event_fk`, the index columns, the value, and behind them the
    source id and the entry id. -/
structure DatasetBindData where
  valueType : LogicalTypeId
  indexNames : List String := []
  valueColumn : Nat := 1
  sourceIdColumn : Nat := 2
  entryIdColumn : Nat := 3
  pathPredicates : List PathPredicateBinding := []
  coalesceGapBytes : UInt64 := 64 * 1024
  rowLimit : UInt64 := uint64Max

def DatasetBindData.typedTransport (bind : DatasetBindData) : Bool :=
  requiresTypedDatasetValue bind.valueType

/-- A decoded value as the scan carries it. -/
inductive DatasetValue where
  | double (value : Double)
  | primitive (value : RootPrimitiveValue)
  deriving DecidableEq, Repr

/-- What the emitter of one row is given. -/
structure DatasetRow where
  eventFk : UInt64
  indices : List Int32
  value : DatasetValue
  sourceId : String
  entryId : UInt64
  deriving DecidableEq, Repr

section

variable {Filter : Type} (evaluate : Evaluate Filter)

def evaluateRootRowFilters (filters : List (RootFilterBinding Filter))
    (resolve : Nat → RootScalarActual) : Bool :=
  filters.all fun binding => evaluate binding.filter (resolve binding.columnId)

def passesDatasetEntryFilters (bind : DatasetBindData)
    (entryFilters : List (RootFilterBinding Filter)) (task : RootBasketTask)
    (entryId : UInt64) : Bool :=
  evaluateRootRowFilters evaluate entryFilters fun column =>
    if column = 0 then .event (task.eventBase + entryId)
    else if column = bind.entryIdColumn then .event entryId
    else if column = bind.sourceIdColumn then .string task.fileId
    else .null .sqlnull

def datasetPrimitiveActual (type : LogicalTypeId) : RootPrimitiveValue → RootScalarActual
  | .signed value => .signed value type
  | .unsigned value => .unsigned value type
  | .floating value => .numeric type value

def datasetRowActual (bind : DatasetBindData) (row : DatasetRow) (column : Nat) :
    RootScalarActual :=
  if column = 0 then .event row.eventFk
  else if 1 ≤ column ∧ column < bind.valueColumn then .index row.indices[column - 1]?
  else if column = bind.valueColumn then
    match row.value with
    | .primitive value => datasetPrimitiveActual bind.valueType value
    | .double value => .numeric bind.valueType value
  else if column = bind.sourceIdColumn then .string row.sourceId
  else if column = bind.entryIdColumn then .event row.entryId
  else .null .sqlnull

/-- `PassesFilters` and `PassesTypedFilters`: the two transports differ in the value of the
    row only. -/
def passesFilters (bind : DatasetBindData) (elementFilters : List (RootFilterBinding Filter))
    (row : DatasetRow) : Bool :=
  evaluateRootRowFilters evaluate elementFilters (datasetRowActual bind row)

end

/-! ### Projection of a row -/

/-- A requested output column: DuckDB's dummy and row-id columns, or a bound column. -/
inductive OutputColumn where
  | empty
  | rowId
  | column (index : Nat)
  deriving DecidableEq, Repr

inductive OutputCell where
  | invalid
  | unsigned (value : UInt64)
  | index (value : Int32)
  | value (value : DatasetValue)
  | string (value : String)
  deriving DecidableEq, Repr

/-- One cell of `EmitProjectedRow` and `EmitProjectedTypedRow`, before the value is stored
    in its column's width. -/
def projectedCell (bind : DatasetBindData) (row : DatasetRow) : OutputColumn → OutputCell
  | .empty => .invalid
  | .rowId => .unsigned row.eventFk
  | .column index =>
      if index = 0 then .unsigned row.eventFk
      else if 1 ≤ index ∧ index < bind.valueColumn then
        match row.indices[index - 1]? with
        | some value => .index value
        | none => .invalid
      else if index = bind.valueColumn then .value row.value
      else if index = bind.sourceIdColumn then .string row.sourceId
      else if index = bind.entryIdColumn then .unsigned row.entryId
      else .invalid

def emitProjectedRow (bind : DatasetBindData) (outputColumnIds : List OutputColumn)
    (row : DatasetRow) : List OutputCell :=
  outputColumnIds.map (projectedCell bind row)

end RootLake.Dataset

/-
  RootLake/Dataset/ScalarActual.lean
  ==================================
  **The scalars of pushed filters.**

  A filter is handed a `RootScalarActual`, which DuckDB reads through `ToValue`.  The
  scalar of a floating value keeps the value in three forms, and two of them are casts to
  64-bit integers that are made whether or not the column's type needs them
  (`RootScalarActual.fields`).  The cast is a parameter: with the casts the language
  defines, a scalar exists only where its value truncates into both integer types
  (`fields_defined_iff`), and a row of filters stops at the first scalar that does not
  (`evaluateFilters_defined_iff`).  On a machine that gives every cast some result, the
  filters are those of `evaluateRootRowFilters`.
-/
import RootLake.Dataset.Filters
import RootLake.Reader.PrimitiveConversion

namespace RootLake.Dataset

open Ieee

/-! ### Scalars -/

/-- The fields of a `RootScalarActual`. -/
structure ScalarFields where
  type : LogicalTypeId
  isNull : Bool := false
  numeric : Double := .zero
  unsignedValue : UInt64 := 0
  signedValue : Int64 := 0
  stringValue : String := ""
  deriving DecidableEq, Repr

/-- What the constructors of a scalar store. -/
def RootScalarActual.fields {m : Type → Type} [Monad m] (cast : FloatingCast m) :
    RootScalarActual → m ScalarFields
  | .null type => pure { type := type, isNull := true }
  | .event value => pure { type := .ubigint, unsignedValue := value }
  | .index value =>
      pure { type := .integer, isNull := value.isNone, signedValue := (value.getD 0).toInt64 }
  | .signed value type =>
      pure { type := type, signedValue := value, unsignedValue := value.toUInt64,
             numeric := .ofInt value.toInt }
  | .unsigned value type =>
      pure { type := type, unsignedValue := value, numeric := .ofInt value.toNat }
  | .string value => pure { type := .varchar, stringValue := value }
  | .numeric type value => do
      let signedValue ← cast.toInt64 value
      let unsignedValue ← cast.toUInt64 value
      pure { type := type, numeric := value, signedValue := signedValue,
             unsignedValue := unsignedValue }

def ScalarFields.toValue (scalar : ScalarFields) : ScalarValue :=
  if scalar.isNull then .null scalar.type
  else
    match scalar.type with
    | .boolean => .boolean (!scalar.numeric.eq .zero)
    | .tinyint => .tinyint scalar.signedValue.toInt8
    | .utinyint => .utinyint scalar.unsignedValue.toUInt8
    | .smallint => .smallint scalar.signedValue.toInt16
    | .usmallint => .usmallint scalar.unsignedValue.toUInt16
    | .integer => .integer scalar.signedValue.toInt32
    | .uinteger => .uinteger scalar.unsignedValue.toUInt32
    | .bigint => .bigint scalar.signedValue
    | .ubigint => .ubigint scalar.unsignedValue
    | .float => .float (UInt32.ofNat scalar.numeric.toFloat32)
    | .double => .double scalar.numeric
    | .varchar => .varchar scalar.stringValue
    | .sqlnull | .hugeint | .uhugeint => .castDouble scalar.numeric scalar.type

/-! ### Filters -/

/-- DuckDB's verdict on a filter and one value. -/
abbrev SelectExpression (Filter : Type) := Filter → ScalarValue → Bool

section

variable {Filter : Type} {m : Type → Type} [Monad m]

/-- `RootFilterEvaluator::Evaluate` on a scalar that is made for it. -/
def evaluateScalar (cast : FloatingCast m) (select : SelectExpression Filter) (filter : Filter)
    (actual : RootScalarActual) : m Bool := do
  let scalar ← actual.fields cast
  pure (select filter scalar.toValue)

/-- `EvaluateRootRowFilters`: the first filter that fails is the last whose scalar is made. -/
def evaluateFilters (cast : FloatingCast m) (select : SelectExpression Filter)
    (resolve : Nat → RootScalarActual) : List (RootFilterBinding Filter) → m Bool
  | [] => pure true
  | binding :: filters => do
      if ← evaluateScalar cast select binding.filter (resolve binding.columnId) then
        evaluateFilters cast select resolve filters
      else pure false

end

section

variable {Filter : Type} (cast : FloatingCast Id) (select : SelectExpression Filter)

/-- The verdicts of a machine, as the scans take them. -/
def selectEvaluate : Evaluate Filter := fun filter actual =>
  (evaluateScalar cast select filter actual).run

end

/-! ### Where the casts are defined -/

/-- The scalar holds no floating value, or one that both 64-bit integers can hold. -/
def RootScalarActual.InRange : RootScalarActual → Prop
  | .numeric _ value =>
      value.truncatesInto (-2 ^ 63) (2 ^ 63 - 1) = true ∧ value.truncatesInto 0 (2 ^ 64 - 1) = true
  | _ => True

instance (actual : RootScalarActual) : Decidable actual.InRange := by
  cases actual <;> unfold RootScalarActual.InRange <;> infer_instance

theorem fields_ok_of_inRange {actual : RootScalarActual} (h : actual.InRange) :
    ∃ scalar, actual.fields FloatingCast.checked = .ok scalar := by
  cases actual with
  | numeric type value =>
      simp only [RootScalarActual.fields, FloatingCast.checked_toInt64 h.1,
        FloatingCast.checked_toUInt64 h.2]
      exact ⟨_, rfl⟩
  | _ => exact ⟨_, rfl⟩

theorem fields_undefined_of_not_inRange {actual : RootScalarActual} (h : ¬ actual.InRange) :
    ∃ value, actual.fields FloatingCast.checked = .error (.undefinedCast value) := by
  cases actual with
  | numeric type value =>
      refine ⟨value, ?_⟩
      rw [RootScalarActual.InRange] at h
      by_cases hsigned : value.truncatesInto (-2 ^ 63) (2 ^ 63 - 1) = true
      · have hunsigned : ¬ value.truncatesInto 0 (2 ^ 64 - 1) = true := fun hu => h ⟨hsigned, hu⟩
        simp only [RootScalarActual.fields, FloatingCast.checked, if_pos hsigned,
          if_neg hunsigned]
        rfl
      · simp only [RootScalarActual.fields, FloatingCast.checked, if_neg hsigned]
        rfl
  | _ => exact absurd trivial h

/-- A filter is reached when every filter in front of it passes, and passing takes a scalar
    whose casts are defined. -/
def ReachedInRange {Filter : Type} (select : SelectExpression Filter)
    (resolve : Nat → RootScalarActual) (filters : List (RootFilterBinding Filter)) : Prop :=
  ∀ passed binding rest, filters = passed ++ binding :: rest →
    (∀ b ∈ passed, evaluateScalar .checked select b.filter (resolve b.columnId) = .ok true) →
    (resolve binding.columnId).InRange

theorem reachedInRange_nil {Filter : Type} (select : SelectExpression Filter)
    (resolve : Nat → RootScalarActual) : ReachedInRange select resolve [] := by
  intro passed binding rest heq
  cases passed <;> cases heq

theorem reachedInRange_cons {Filter : Type} (select : SelectExpression Filter)
    (resolve : Nat → RootScalarActual) (binding : RootFilterBinding Filter)
    (filters : List (RootFilterBinding Filter)) :
    ReachedInRange select resolve (binding :: filters) ↔
      (resolve binding.columnId).InRange ∧
        (evaluateScalar .checked select binding.filter (resolve binding.columnId) = .ok true →
          ReachedInRange select resolve filters) := by
  constructor
  · intro h
    refine ⟨h [] binding filters rfl (by simp), ?_⟩
    intro hpass passed other rest heq hall
    refine h (binding :: passed) other rest (by rw [heq]; rfl) ?_
    simp only [List.mem_cons, forall_eq_or_imp]
    exact ⟨hpass, hall⟩
  · rintro ⟨hfirst, hrest⟩ passed other rest heq hall
    cases passed with
    | nil =>
        cases heq
        exact hfirst
    | cons first passed =>
        obtain ⟨rfl, rfl⟩ := List.cons.inj heq
        simp only [List.mem_cons, forall_eq_or_imp] at hall
        exact hrest hall.1 passed other rest rfl hall.2

theorem evaluateFilters_defined_iff {Filter : Type} (select : SelectExpression Filter)
    (resolve : Nat → RootScalarActual) (filters : List (RootFilterBinding Filter)) :
    CastsDefined (evaluateFilters .checked select resolve filters) ↔
      ReachedInRange select resolve filters := by
  induction filters with
  | nil =>
      exact iff_of_true (CastsDefined.ok _) (reachedInRange_nil select resolve)
  | cons binding filters ih =>
      rw [reachedInRange_cons]
      by_cases hrange : (resolve binding.columnId).InRange
      · obtain ⟨scalar, hscalar⟩ := fields_ok_of_inRange hrange
        have hverdict : evaluateScalar .checked select binding.filter (resolve binding.columnId) =
            .ok (select binding.filter scalar.toValue) := by
          rw [evaluateScalar, hscalar]
          rfl
        cases hselect : select binding.filter scalar.toValue with
        | true =>
            rw [hselect] at hverdict
            have hstep : evaluateFilters .checked select resolve (binding :: filters) =
                evaluateFilters .checked select resolve filters := by
              rw [evaluateFilters, hverdict]
              rfl
            rw [hstep, ih, hverdict]
            exact ⟨fun h => ⟨hrange, fun _ => h⟩, fun h => h.2 rfl⟩
        | false =>
            rw [hselect] at hverdict
            have hstep : evaluateFilters .checked select resolve (binding :: filters) =
                .ok false := by
              rw [evaluateFilters, hverdict]
              rfl
            rw [hstep, hverdict]
            exact iff_of_true (CastsDefined.ok _) ⟨hrange, fun h => nomatch h⟩
      · obtain ⟨value, hvalue⟩ := fields_undefined_of_not_inRange hrange
        have hstep : evaluateFilters .checked select resolve (binding :: filters) =
            .error (.undefinedCast value) := by
          rw [evaluateFilters, evaluateScalar, hvalue]
          rfl
        rw [hstep]
        exact iff_of_false (fun h => h value rfl) (fun h => hrange h.1)

/-! ### Storing a row -/

/-- What a vector of the result holds in one row. -/
inductive StoredCell where
  | invalid
  | unsigned (value : UInt64)
  | index (value : Int32)
  | value (value : ScalarValue)
  | string (value : String)
  deriving DecidableEq, Repr

/-- Stores one cell of a projected row in its column's width. -/
def storeCell (bind : DatasetBindData) : OutputCell → Except ConversionFault StoredCell
  | .invalid => .ok .invalid
  | .unsigned value => .ok (.unsigned value)
  | .index value => .ok (.index value)
  | .string value => .ok (.string value)
  | .value (.double value) => .value <$> setDoubleAsType bind.valueType value
  | .value (.primitive value) => .value <$> setPrimitiveAsType bind.valueType value

theorem storeCell_defined (bind : DatasetBindData) (cell : OutputCell) :
    CastsDefined (storeCell bind cell) := by
  cases cell with
  | value value =>
      cases value with
      | double value => exact CastsDefined.map (setDoubleAsType_defined _ _)
      | primitive value => exact CastsDefined.map (setPrimitiveAsType_defined _ _)
  | _ => exact CastsDefined.ok _

theorem CastsDefined.mapM {α β : Type} {f : α → Except ConversionFault β} {l : List α}
    (h : ∀ a ∈ l, CastsDefined (f a)) : CastsDefined (l.mapM f) := by
  induction l with
  | nil => exact CastsDefined.ok _
  | cons a l ih =>
      rw [List.mapM_cons]
      apply CastsDefined.bind (h a List.mem_cons_self)
      intro first _
      apply CastsDefined.bind (ih fun b hb => h b (List.mem_cons_of_mem _ hb))
      intro rest _
      exact CastsDefined.ok _

/-- One value of a dataset scan: its filters, then its row if they pass. -/
def filterAndStore {Filter : Type} (select : SelectExpression Filter) (bind : DatasetBindData)
    (elementFilters : List (RootFilterBinding Filter)) (outputColumnIds : List OutputColumn)
    (row : DatasetRow) : Except ConversionFault (Option (List StoredCell)) := do
  if ← evaluateFilters .checked select (datasetRowActual bind row) elementFilters then
    let cells ← (emitProjectedRow bind outputColumnIds row).mapM (storeCell bind)
    pure (some cells)
  else pure none

/-- Only the scalars of the filters can have an undefined cast. -/
theorem filterAndStore_defined_iff {Filter : Type} (select : SelectExpression Filter)
    (bind : DatasetBindData) (elementFilters : List (RootFilterBinding Filter))
    (outputColumnIds : List OutputColumn) (row : DatasetRow) :
    CastsDefined (filterAndStore select bind elementFilters outputColumnIds row) ↔
      ReachedInRange select (datasetRowActual bind row) elementFilters := by
  rw [← evaluateFilters_defined_iff]
  constructor
  · intro h value hvalue
    refine h value ?_
    rw [filterAndStore, hvalue]
    rfl
  · intro h
    apply CastsDefined.bind h
    intro passes _
    cases passes with
    | false => exact CastsDefined.ok _
    | true =>
        apply CastsDefined.bind (CastsDefined.mapM fun cell _ => storeCell_defined bind cell)
        intro cells _
        exact CastsDefined.ok _

end RootLake.Dataset

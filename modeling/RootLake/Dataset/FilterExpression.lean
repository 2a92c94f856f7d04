/-
  RootLake/Dataset/FilterExpression.lean
  ======================================
  **Pushed filters and their meaning.**

  A pushed filter is an expression over one column.  The values of the column are doubles
  or 64-bit words; a type of values has the engine's total order, in which NaN is greatest.
  The meaning of an expression at a value is three-valued.  What the engine computes
  elsewhere (casts, comparisons across types, functions this program does not look into)
  is a parameter.

  Metadata pruning looks through the optional wrappers that the engine puts around a
  condition which it checks again above the scan.
-/
import RootLake.Lib.Sql3
import RootLake.Dataset.PathPredicates

namespace RootLake.Dataset

open Ieee Sql3

/-! ### Values and comparisons -/

/-- Values with the engine's order. -/
class SqlOrdered (K : Type) where
  sqlKey : K → Int

/-- The types up to 32 bits and the floating types. -/
instance : SqlOrdered Double where
  sqlKey := Double.sqlKey

instance : SqlOrdered UInt64 where
  sqlKey value := value.toNat

/-- A constant. -/
inductive Value (K : Type) where
  | null (type : LogicalTypeId)
  | number (type : LogicalTypeId) (value : K)
  | other (type : LogicalTypeId) (text : String)
  deriving DecidableEq, Repr, Inhabited

variable {K : Type}

def Value.type : Value K → LogicalTypeId
  | null type => type
  | number type _ => type
  | other type _ => type

def Value.isNull : Value K → Bool
  | null _ => true
  | _ => false

inductive ExpressionType where
  | compareEqual
  | compareNotEqual
  | compareLessThan
  | compareLessThanOrEqualTo
  | compareGreaterThan
  | compareGreaterThanOrEqualTo
  deriving DecidableEq, Repr, Inhabited

/-- The comparison in the engine's order. -/
def ExpressionType.holds [SqlOrdered K] (type : ExpressionType) (left right : K) : Bool :=
  let l := SqlOrdered.sqlKey left
  let r := SqlOrdered.sqlKey right
  match type with
  | compareEqual => decide (l = r)
  | compareNotEqual => decide (l ≠ r)
  | compareLessThan => decide (l < r)
  | compareLessThanOrEqualTo => decide (l ≤ r)
  | compareGreaterThan => decide (r < l)
  | compareGreaterThanOrEqualTo => decide (r ≤ l)

def rootReverseComparison : ExpressionType → ExpressionType
  | .compareLessThan => .compareGreaterThan
  | .compareLessThanOrEqualTo => .compareGreaterThanOrEqualTo
  | .compareGreaterThan => .compareLessThan
  | .compareGreaterThanOrEqualTo => .compareLessThanOrEqualTo
  | type => type

theorem holds_rootReverseComparison [SqlOrdered K] (type : ExpressionType) (left right : K) :
    (rootReverseComparison type).holds left right = type.holds right left := by
  cases type with
  | compareEqual => exact decide_eq_decide.mpr eq_comm
  | compareNotEqual => exact decide_eq_decide.mpr ne_comm
  | compareLessThan => rfl
  | compareLessThanOrEqualTo => rfl
  | compareGreaterThan => rfl
  | compareGreaterThanOrEqualTo => rfl

/-! ### Expressions -/

/-- An argument of a comparison. -/
inductive Operand (K : Type) where
  | column
  | constant (value : Value K)
  | cast (child : Operand K) (type : LogicalTypeId)
  | other (value : K → Option (Value K))

/-- A pushed condition; `other` is whatever this program does not look into.  The flags of a
    BETWEEN say which of its bounds are included. -/
inductive Expression (K : Type) where
  | comparison (type : ExpressionType) (left right : Operand K)
  | between (lowerInclusive upperInclusive : Bool) (input lower upper : Operand K)
  | isIn (input : Operand K) (constants : List (Operand K))
  | conjunctionAnd (children : List (Expression K))
  | conjunctionOr (children : List (Expression K))
  | other (meaning : K → Truth)

/-- A table filter: a condition, or an optional wrapper around one.  A wrapper without bind
    data has lost its condition. -/
inductive TableFilter (K : Type) where
  | expression (condition : Expression K)
  | optional (child : TableFilter K)
  | optionalWithoutBindInfo

/-- The engine's part: casts, and comparisons that are not of two numbers of one type. -/
structure SqlSemantics (K : Type) where
  castValue : Value K → LogicalTypeId → Option (Value K)
  compareOther : ExpressionType → Option (Value K) → Option (Value K) → Truth

section

variable (sem : SqlSemantics K)

/-! ### Operands -/

/-- The value of an operand in a row whose column, of type `type`, is `x`; `none` where a
    cast fails. -/
def Operand.value (type : LogicalTypeId) (x : K) : Operand K → Option (Value K)
  | column => some (.number type x)
  | constant value => some value
  | cast child target => (child.value type x).bind fun value => sem.castValue value target
  | other value => value x

/-! ### What pruning recognises -/

def rootIsColumnReference : Operand K → Bool
  | .column => true
  | _ => false

def constantExpressionValue : Operand K → Option (Value K)
  | .constant value => some value
  | .cast child target =>
      (constantExpressionValue child).bind fun value => sem.castValue value target
  | _ => none

/-- A comparison of the column with a constant, turned round so that the column stands
    on the left. -/
def columnComparison : Expression K → Option (ExpressionType × Value K)
  | .comparison type left right =>
      if rootIsColumnReference left then
        match constantExpressionValue sem right with
        | some value => if value.isNull then none else some (type, value)
        | none => none
      else if rootIsColumnReference right then
        match constantExpressionValue sem left with
        | some value => if value.isNull then none else some (rootReverseComparison type, value)
        | none => none
      else none
  | _ => none

/-- The constants of an IN list that are not NULL. -/
def inConstants : Expression K → Option (List (Value K))
  | .isIn input constants =>
      if constants.isEmpty || !rootIsColumnReference input then none
      else
        (constants.mapM (constantExpressionValue sem)).map fun values =>
          values.filter fun value => !value.isNull
  | _ => none

/-- The loop of `RootFilterMetadataExpression`, which gives up behind 16 wrappers. -/
def metadataExpressionFrom : Nat → TableFilter K → Option (Expression K)
  | 0, _ => none
  | _ + 1, .expression condition => some condition
  | depth + 1, .optional child => metadataExpressionFrom depth child
  | _ + 1, .optionalWithoutBindInfo => none

def rootFilterMetadataExpression (filter : TableFilter K) : Option (Expression K) :=
  metadataExpressionFrom 16 filter

theorem eq_column_of_rootIsColumnReference :
    ∀ {operand : Operand K}, rootIsColumnReference operand = true → operand = .column
  | .column, _ => rfl

theorem constantExpressionValue_value {type : LogicalTypeId} {x : K} :
    ∀ {operand : Operand K} {value : Value K}, constantExpressionValue sem operand = some value →
      operand.value sem type x = some value := by
  intro operand
  induction operand with
  | column => intro value h; cases h
  | constant constant => intro value h; exact h
  | cast child target ih =>
    intro value h
    obtain ⟨inner, hinner, hcast⟩ := Option.bind_eq_some_iff.mp h
    exact Option.bind_eq_some_iff.mpr ⟨inner, ih hinner, hcast⟩
  | other f => intro value h; cases h

/-! ### Meaning -/

variable [SqlOrdered K]

def compareValues (type : ExpressionType) (left right : Option (Value K)) : Truth :=
  match left, right with
  | some (.null _), _ => none
  | _, some (.null _) => none
  | some (.number leftType x), some (.number rightType y) =>
      if leftType = rightType then some (type.holds x y)
      else sem.compareOther type left right
  | _, _ => sem.compareOther type left right

/-- The comparisons of a BETWEEN. -/
def lowerComparison (inclusive : Bool) : ExpressionType :=
  if inclusive then .compareGreaterThanOrEqualTo else .compareGreaterThan

def upperComparison (inclusive : Bool) : ExpressionType :=
  if inclusive then .compareLessThanOrEqualTo else .compareLessThan

mutual

/-- The meaning of a condition at a value of the column. -/
def Expression.meaning (type : LogicalTypeId) (x : K) : Expression K → Truth
  | comparison comparisonType left right =>
      compareValues sem comparisonType (left.value sem type x) (right.value sem type x)
  | between lowerInclusive upperInclusive input lower upper =>
      and3 (compareValues sem (lowerComparison lowerInclusive) (input.value sem type x)
          (lower.value sem type x))
        (compareValues sem (upperComparison upperInclusive) (input.value sem type x)
          (upper.value sem type x))
  | isIn input constants =>
      any3 (constants.map fun constant =>
        compareValues sem .compareEqual (input.value sem type x) (constant.value sem type x))
  | conjunctionAnd children => all3 (Expression.meanings type x children)
  | conjunctionOr children => any3 (Expression.meanings type x children)
  | other meaning => meaning x

def Expression.meanings (type : LogicalTypeId) (x : K) : List (Expression K) → List Truth
  | [] => []
  | child :: rest => child.meaning type x :: Expression.meanings type x rest

end

/-- What a filter asks of the rows of the result: the condition inside the wrappers. -/
def TableFilter.meaning (type : LogicalTypeId) (x : K) : TableFilter K → Truth
  | expression condition => condition.meaning sem type x
  | optional child => child.meaning type x
  | optionalWithoutBindInfo => some true

theorem meanings_eq_map (type : LogicalTypeId) (x : K) (children : List (Expression K)) :
    Expression.meanings sem type x children =
      children.map fun child => child.meaning sem type x := by
  induction children with
  | nil => rfl
  | cons child rest ih => rw [Expression.meanings, ih, List.map_cons]

/-! ### Recognised conditions mean what they say -/

/-- An included bound asks for less than an excluded one. -/
theorem holds_of_lowerComparison {inclusive : Bool} {x c : K}
    (h : (lowerComparison inclusive).holds x c = true) :
    ExpressionType.compareGreaterThanOrEqualTo.holds x c = true := by
  cases inclusive with
  | true => exact h
  | false => exact decide_eq_true (le_of_lt (of_decide_eq_true h))

theorem holds_of_upperComparison {inclusive : Bool} {x c : K}
    (h : (upperComparison inclusive).holds x c = true) :
    ExpressionType.compareLessThanOrEqualTo.holds x c = true := by
  cases inclusive with
  | true => exact h
  | false => exact decide_eq_true (le_of_lt (of_decide_eq_true h))

/-- A recognised comparison compares the value with the constant. -/
theorem columnComparison_meaning {e : Expression K} {comparisonType : ExpressionType}
    {value : Value K} (h : columnComparison sem e = some (comparisonType, value))
    {type : LogicalTypeId} {c : K} (hvalue : value = .number type c) (x : K) :
    e.meaning sem type x = some (comparisonType.holds x c) := by
  cases e with
  | comparison type' left right =>
    simp only [columnComparison] at h
    split at h
    next hleft =>
      have hcolumn := eq_column_of_rootIsColumnReference hleft
      split at h
      next v hconstant =>
        split at h
        next => cases h
        next =>
          cases h
          rw [Expression.meaning, hcolumn, constantExpressionValue_value sem hconstant, hvalue]
          exact if_pos rfl
      next => cases h
    next =>
      split at h
      next hright =>
        have hcolumn := eq_column_of_rootIsColumnReference hright
        split at h
        next v hconstant =>
          split at h
          next => cases h
          next =>
            cases h
            rw [Expression.meaning, hcolumn, constantExpressionValue_value sem hconstant, hvalue,
              holds_rootReverseComparison]
            exact if_pos rfl
        next => cases h
      next => cases h
  | between lowerInclusive upperInclusive input lower upper => cases h
  | isIn input constants => cases h
  | conjunctionAnd children => cases h
  | conjunctionOr children => cases h
  | other meaning => cases h

theorem metadataExpressionFrom_meaning {type : LogicalTypeId} {x : K} :
    ∀ {depth : Nat} {filter : TableFilter K} {e : Expression K},
      metadataExpressionFrom depth filter = some e →
      filter.meaning sem type x = e.meaning sem type x := by
  intro depth
  induction depth with
  | zero => intro filter e h; cases h
  | succ depth ih =>
    intro filter e h
    cases filter with
    | expression condition => cases h; rfl
    | optional child => exact @ih child e h
    | optionalWithoutBindInfo => cases h

/-- Pruning looks at the condition the filter stands for. -/
theorem rootFilterMetadataExpression_meaning {filter : TableFilter K} {e : Expression K}
    (h : rootFilterMetadataExpression filter = some e) (type : LogicalTypeId) (x : K) :
    filter.meaning sem type x = e.meaning sem type x :=
  metadataExpressionFrom_meaning sem h

end

end RootLake.Dataset

/-
  RootLake/Dataset/PathPredicates.lean
  ====================================
  **Auxiliary path predicates: parsing and the exact event-grain evaluator.**

  A predicate compares the decoded values of another path of the same entry with
  constants taken from JSON.  Constants are parsed against the physical type of
  the path first, so an evaluated predicate never mixes a floating constant with
  an integer column.  Comparison is three-way and typed; a NaN compares equal to
  everything, because neither `<` nor `>` holds for it.
-/
import RootLake.Reader.PrimitiveValue

namespace RootLake.Dataset

open Ieee

/-! ### Predicates -/

inductive PathPredicateOp where
  | eq
  | ne
  | lt
  | le
  | gt
  | ge
  | between
  | isIn
  deriving DecidableEq, Repr, Inhabited

/-- A predicate bound to the physical type of its path. -/
structure PathPredicateBinding where
  path : String
  op : PathPredicateOp
  values : List RootPrimitiveValue
  requireAllValues : Bool
  valueType : LogicalTypeId
  deriving DecidableEq, Repr, Inhabited

def requiresTypedDatasetValue (type : LogicalTypeId) : Bool :=
  type == .bigint || type == .ubigint

/-- Types whose values a double represents without loss. -/
def usesDoubleBackedValueMetadata : LogicalTypeId → Bool
  | .boolean | .tinyint | .utinyint | .smallint | .usmallint | .integer | .uinteger
  | .float | .double => true
  | .bigint | .ubigint | .hugeint | .uhugeint | .varchar | .sqlnull => false

/-! ### Constants -/

/-- The JSON values a constant can be.  A number token is unsigned, negative or
    floating; a floating token that overflows is rejected while parsing. -/
inductive JsonValue where
  | boolean (value : Bool)
  | numberUnsigned (value : UInt64)
  | numberInteger (value : Int64)
  | numberFloat (value : Double) (finite : value.isFinite = true)
  | other
  deriving DecidableEq, Repr

def pathPredicateJsonValue (value : JsonValue) (type : LogicalTypeId) :
    Except IOException RootPrimitiveValue :=
  match type with
  | .boolean =>
      match value with
      | .boolean b => .ok (.unsigned (if b then 1 else 0))
      | .numberUnsigned n =>
          if n = 0 ∨ n = 1 then .ok (.unsigned n)
          else .error ⟨"Boolean path predicate requires true/false or 0/1"⟩
      | .numberInteger n =>
          if n = 0 ∨ n = 1 then .ok (.unsigned n.toUInt64)
          else .error ⟨"Boolean path predicate requires true/false or 0/1"⟩
      | _ => .error ⟨"Boolean path predicate requires true/false or 0/1"⟩
  | .tinyint | .smallint | .integer | .bigint =>
      match value with
      | .numberUnsigned n =>
          if n.toNat > 2 ^ 63 - 1 then
            .error ⟨"Signed path predicate constant is too large"⟩
          else .ok (.signed (Int64.ofNat n.toNat))
      | .numberInteger n => .ok (.signed n)
      | _ => .error ⟨"Signed integer path predicate requires an integer constant"⟩
  | .utinyint | .usmallint | .uinteger | .ubigint =>
      match value with
      | .numberUnsigned n => .ok (.unsigned n)
      | .numberInteger n =>
          if n < 0 then .error ⟨"Unsigned path predicate cannot use a negative constant"⟩
          else .ok (.unsigned n.toUInt64)
      | _ => .error ⟨"Unsigned integer path predicate requires an integer constant"⟩
  | .float | .double =>
      match value with
      | .numberUnsigned n => .ok (.floating (Double.ofNat n.toNat))
      | .numberInteger n => .ok (.floating (Double.ofInt n.toInt))
      | .numberFloat d _ => .ok (.floating d)
      | _ => .error ⟨"Floating path predicate requires a numeric constant"⟩
  | .hugeint | .uhugeint | .varchar | .sqlnull => .error ⟨"Unsupported path predicate type"⟩

def threeWay {α : Type} (lt : α → α → Bool) (a b : α) : Int :=
  if lt a b then -1 else if lt b a then 1 else 0

def comparePathPredicateValues (left right : RootPrimitiveValue) (type : LogicalTypeId) :
    Except IOException Int :=
  match type with
  | .boolean | .utinyint | .usmallint | .uinteger | .ubigint => do
      let a ← left.asUnsigned
      let b ← right.asUnsigned
      return threeWay (fun x y => decide (x < y)) a b
  | .tinyint | .smallint | .integer | .bigint => do
      let a ← left.asSigned
      let b ← right.asSigned
      return threeWay (fun x y => decide (x < y)) a b
  | .float | .double => return threeWay Double.lt left.asDouble right.asDouble
  | .hugeint | .uhugeint | .varchar | .sqlnull => .error ⟨"Unsupported path predicate type"⟩

/-! ### Parsing -/

/-- One element of the `path_predicates` array. -/
structure PathPredicateItem where
  path : Option String
  op : Option String
  quantifier : Option String
  value : Option JsonValue
  values : Option (List JsonValue)
  lower : Option JsonValue
  upper : Option JsonValue

def parsePathPredicateOp (op : String) : Except IOException PathPredicateOp :=
  match op.toLower with
  | "=" | "==" | "eq" => .ok .eq
  | "!=" | "<>" | "ne" => .ok .ne
  | "<" | "lt" => .ok .lt
  | "<=" | "le" => .ok .le
  | ">" | "gt" => .ok .gt
  | ">=" | "ge" => .ok .ge
  | "between" => .ok .between
  | "in" => .ok .isIn
  | other => .error ⟨"Unsupported path predicate operator: " ++ other⟩

/-- The constants of one item, in the order the evaluator reads them: the two bounds of
    BETWEEN are swapped when they are given in the wrong order. -/
def parsePathPredicateValues (item : PathPredicateItem) (op : PathPredicateOp)
    (type : LogicalTypeId) : Except IOException (List RootPrimitiveValue) :=
  match op with
  | .isIn =>
      match item.values with
      | some values => values.mapM (pathPredicateJsonValue · type)
      | none => .error ⟨"IN path predicate needs values array"⟩
  | .between => do
      let bounds ←
        match item.values, item.lower, item.upper with
        | some [first, second], _, _ => .ok (first, second)
        | _, some lower, some upper => .ok (lower, upper)
        | _, _, _ => .error ⟨"BETWEEN path predicate needs lower/upper or two values"⟩
      let first ← pathPredicateJsonValue bounds.1 type
      let second ← pathPredicateJsonValue bounds.2 type
      let order ← comparePathPredicateValues first second type
      return if order > 0 then [second, first] else [first, second]
  | _ =>
      match item.value with
      | some value => do return [← pathPredicateJsonValue value type]
      | none => .error ⟨"Path predicate needs value"⟩

/-- One item of `ParsePathPredicates`; `pathType` is the physical type the catalog gives
    the normalized path. -/
def parsePathPredicate (normalizePath : String → String) (pathType : String → LogicalTypeId)
    (item : PathPredicateItem) : Except IOException PathPredicateBinding :=
  match item.path, item.op with
  | some rawPath, some rawOp => do
      let path := normalizePath rawPath
      let op ← parsePathPredicateOp rawOp
      let quantifier := item.quantifier.getD "any"
      if quantifier ≠ "any" ∧ quantifier ≠ "all" then
        throw ⟨"path predicate quantifier must be any or all"⟩
      let values ← parsePathPredicateValues item op (pathType path)
      if values = [] then
        throw ⟨"Path predicate has no constants"⟩
      return {
        path := path
        op := op
        values := values
        requireAllValues := decide (quantifier = "all")
        valueType := pathType path }
  | _, _ => .error ⟨"Each path predicate needs path and op"⟩

/-! ### Evaluation -/

def pathPredicateValueMatches (predicate : PathPredicateBinding) (value : RootPrimitiveValue) :
    Except IOException Bool :=
  let compare (index : Nat) :=
    comparePathPredicateValues value (predicate.values.getD index default) predicate.valueType
  match predicate.op with
  | .eq => do return decide ((← compare 0) = 0)
  | .ne => do return decide ((← compare 0) ≠ 0)
  | .lt => do return decide ((← compare 0) < 0)
  | .le => do return decide ((← compare 0) ≤ 0)
  | .gt => do return decide ((← compare 0) > 0)
  | .ge => do return decide ((← compare 0) ≥ 0)
  | .between => do
      if (← compare 0) < 0 then return false
      return decide ((← compare 1) ≤ 0)
  | .isIn =>
      predicate.values.anyM fun constant => do
        return decide ((← comparePathPredicateValues value constant predicate.valueType) = 0)

/-- **Exact event-grain evaluation.**  An entry without values matches no predicate. -/
def pathPredicateEventMatches (predicate : PathPredicateBinding)
    (values : List RootPrimitiveValue) : Except IOException Bool :=
  match values with
  | [] => .ok false
  | _ :: _ =>
      if predicate.requireAllValues then
        values.allM (pathPredicateValueMatches predicate)
      else
        values.anyM (pathPredicateValueMatches predicate)

end RootLake.Dataset

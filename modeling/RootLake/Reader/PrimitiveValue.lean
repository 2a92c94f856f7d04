import RootLake.Lib.Ieee

/-!
# Decoded primitive values

`RootPrimitiveValue` is the reader's tagged 64-bit scalar. The double transport goes
through `asDouble`; the two typed accessors raise where the source throws
`std::out_of_range`.

The column types are the eleven numeric types the index knows, with the two other types
a filter scalar can have and the two wide integer types a filter constant can have.
-/

namespace RootLake

open Ieee

/-- The DuckDB column types this program distinguishes. -/
inductive LogicalTypeId where
  | boolean
  | tinyint
  | utinyint
  | smallint
  | usmallint
  | integer
  | uinteger
  | bigint
  | ubigint
  | float
  | double
  | varchar
  | sqlnull
  | hugeint
  | uhugeint
  deriving DecidableEq, Repr, Inhabited

/-- An error raised by the program, with its text. -/
structure IOException where
  message : String
  deriving DecidableEq, Repr, Inhabited

inductive RootPrimitiveValue where
  | signed (value : Int64)
  | unsigned (value : UInt64)
  | floating (value : Double)
  deriving DecidableEq, Repr, Inhabited

namespace RootPrimitiveValue

def asDouble : RootPrimitiveValue → Double
  | signed value => Double.ofInt value.toInt
  | unsigned value => Double.ofInt value.toNat
  | floating value => value

/-- The upper bound is exclusive: the double nearest to `INT64_MAX` is `2^63`. -/
def asSigned : RootPrimitiveValue → Except IOException Int64
  | signed value => .ok value
  | unsigned value =>
      if value.toNat > 2 ^ 63 - 1 then
        .error ⟨"ROOT unsigned primitive cannot be represented as a signed integer"⟩
      else .ok (Int64.ofNat value.toNat)
  | floating value =>
      if !value.isFinite || value.lt (Double.ofInt (-2 ^ 63)) || (Double.ofInt (2 ^ 63)).le value then
        .error ⟨"ROOT floating primitive cannot be represented as a signed integer"⟩
      else .ok (Int64.ofInt value.trunc)

/-- A signed value is reinterpreted, as the source's cast does. -/
def asUnsigned : RootPrimitiveValue → Except IOException UInt64
  | signed value => .ok value.toUInt64
  | unsigned value => .ok value
  | floating value =>
      if !value.isFinite || value.trunc < 0 || (Double.ofInt (2 ^ 64)).le value then
        .error ⟨"ROOT floating primitive cannot be represented as an unsigned integer"⟩
      else .ok (UInt64.ofNat value.trunc.toNat)

end RootPrimitiveValue

end RootLake

import RootLake.Lib.Narrowing
import RootLake.Reader.PrimitiveValue

/-!
# Conversions of decoded primitives

The casts of a floating value to an integer are steps of their own here, because the
language gives them a result only where the integer type can hold the truncation. The
accessors of `RootPrimitiveValue` and the writers over them check the range before they
cast, so the only fault they have is the exception they throw; the scalars of pushed
filters are in `RootLake.Dataset.ScalarActual`.
-/

namespace RootLake

open Ieee

/-- Why a conversion has no result: the program throws, or the language leaves the cast of a
    floating value undefined. -/
inductive ConversionFault where
  | thrown (error : IOException)
  | undefinedCast (value : Double)
  deriving DecidableEq, Repr

/-- `static_cast<int64_t>` and `static_cast<uint64_t>` of a floating value. -/
structure FloatingCast (m : Type → Type) where
  toInt64 : Double → m Int64
  toUInt64 : Double → m UInt64

namespace FloatingCast

/-- The casts as the language defines them. -/
def checked : FloatingCast (Except ConversionFault) where
  toInt64 value :=
    if value.truncatesInto (-2 ^ 63) (2 ^ 63 - 1) then .ok (Int64.ofInt value.trunc)
    else .error (.undefinedCast value)
  toUInt64 value :=
    if value.truncatesInto 0 (2 ^ 64 - 1) then .ok (UInt64.ofNat value.trunc.toNat)
    else .error (.undefinedCast value)

/-- A machine that gives every cast some result, and the right one where it is defined. -/
structure Implements (cast : FloatingCast Id) : Prop where
  toInt64_eq : ∀ {value result}, checked.toInt64 value = .ok result → cast.toInt64 value = result
  toUInt64_eq : ∀ {value result},
    checked.toUInt64 value = .ok result → cast.toUInt64 value = result

theorem checked_toInt64 {value : Double}
    (h : value.truncatesInto (-2 ^ 63) (2 ^ 63 - 1) = true) :
    checked.toInt64 value = .ok (Int64.ofInt value.trunc) := by
  simp only [checked, h, if_true]

theorem checked_toUInt64 {value : Double} (h : value.truncatesInto 0 (2 ^ 64 - 1) = true) :
    checked.toUInt64 value = .ok (UInt64.ofNat value.trunc.toNat) := by
  simp only [checked, h, if_true]

end FloatingCast

/-- No cast on the way is undefined. -/
def CastsDefined {α : Type} (x : Except ConversionFault α) : Prop :=
  ∀ value, x ≠ .error (.undefinedCast value)

theorem CastsDefined.ok {α : Type} (result : α) : CastsDefined (.ok result) := by
  intro value h
  cases h

theorem CastsDefined.thrown {α : Type} (error : IOException) :
    CastsDefined (.error (.thrown error) : Except ConversionFault α) := by
  intro value h
  cases h

theorem CastsDefined.bind {α β : Type} {x : Except ConversionFault α}
    {f : α → Except ConversionFault β} (hx : CastsDefined x)
    (hf : ∀ result, x = .ok result → CastsDefined (f result)) : CastsDefined (x >>= f) := by
  cases x with
  | error fault =>
      intro value h
      cases h
      exact hx value rfl
  | ok result => exact hf result rfl

theorem CastsDefined.map {α β : Type} {x : Except ConversionFault α} {f : α → β}
    (hx : CastsDefined x) : CastsDefined (f <$> x) := by
  cases x with
  | error fault =>
      intro value h
      cases h
      exact hx value rfl
  | ok result => exact CastsDefined.ok _

namespace RootPrimitiveValue

/-! ### The two wide accessors -/

/-- `AsSigned` with its cast of the floating value as a step. -/
def castSigned : RootPrimitiveValue → Except ConversionFault Int64
  | signed value => .ok value
  | unsigned value =>
      if value.toNat > 2 ^ 63 - 1 then
        .error (.thrown ⟨"ROOT unsigned primitive cannot be represented as a signed integer"⟩)
      else .ok (Int64.ofNat value.toNat)
  | floating value =>
      if !value.isFinite || value.lt (Double.ofInt (-2 ^ 63)) || (Double.ofInt (2 ^ 63)).le value then
        .error (.thrown ⟨"ROOT floating primitive cannot be represented as a signed integer"⟩)
      else FloatingCast.checked.toInt64 value

/-- `AsUnsigned` with its cast of the floating value as a step. -/
def castUnsigned : RootPrimitiveValue → Except ConversionFault UInt64
  | signed value => .ok value.toUInt64
  | unsigned value => .ok value
  | floating value =>
      if !value.isFinite || value.trunc < 0 || (Double.ofInt (2 ^ 64)).le value then
        .error (.thrown ⟨"ROOT floating primitive cannot be represented as an unsigned integer"⟩)
      else FloatingCast.checked.toUInt64 value

/-- What the guard of `AsSigned` leaves is in the range of the cast. -/
theorem truncatesInto_of_signed_guard {value : Double}
    (h : (!value.isFinite || value.lt (Double.ofInt (-2 ^ 63)) ||
      (Double.ofInt (2 ^ 63)).le value) = false) :
    value.truncatesInto (-2 ^ 63) (2 ^ 63 - 1) = true := by
  simp only [Bool.or_eq_false_iff, Bool.not_eq_false'] at h
  obtain ⟨⟨hfinite, hlow⟩, hhigh⟩ := h
  have hge := Double.le_trunc_of_not_lt hfinite hlow
  have hlt := (Double.trunc_lt_two_pow_iff (e := 63) (by decide) (by decide) hfinite).mp hhigh
  exact Double.truncatesInto_iff.mpr ⟨hfinite, hge, by omega⟩

theorem truncatesInto_of_unsigned_guard {value : Double}
    (h : (!value.isFinite || decide (value.trunc < 0) ||
      (Double.ofInt (2 ^ 64)).le value) = false) :
    value.truncatesInto 0 (2 ^ 64 - 1) = true := by
  simp only [Bool.or_eq_false_iff, Bool.not_eq_false', decide_eq_false_iff_not] at h
  obtain ⟨⟨hfinite, hlow⟩, hhigh⟩ := h
  have hlt := (Double.trunc_lt_two_pow_iff (e := 64) (by decide) (by decide) hfinite).mp hhigh
  exact Double.truncatesInto_iff.mpr ⟨hfinite, by omega, by omega⟩

/-- The guard never lets an undefined cast through. -/
theorem castSigned_eq (value : RootPrimitiveValue) :
    value.castSigned = value.asSigned.mapError .thrown := by
  cases value with
  | signed value => rfl
  | unsigned value =>
      simp only [castSigned, asSigned]
      split <;> rfl
  | floating value =>
      simp only [castSigned, asSigned]
      split
      next => rfl
      next hguard =>
        rw [Bool.not_eq_true] at hguard
        exact FloatingCast.checked_toInt64 (truncatesInto_of_signed_guard hguard)

theorem castUnsigned_eq (value : RootPrimitiveValue) :
    value.castUnsigned = value.asUnsigned.mapError .thrown := by
  cases value with
  | signed value => rfl
  | unsigned value => rfl
  | floating value =>
      simp only [castUnsigned, asUnsigned]
      split
      next => rfl
      next hguard =>
        rw [Bool.not_eq_true] at hguard
        exact FloatingCast.checked_toUInt64 (truncatesInto_of_unsigned_guard hguard)

theorem castsDefined_mapError {α : Type} (x : Except IOException α) :
    CastsDefined (x.mapError .thrown) := by
  cases x with
  | error error => exact CastsDefined.thrown error
  | ok result => exact CastsDefined.ok result

theorem castSigned_defined (value : RootPrimitiveValue) : CastsDefined value.castSigned := by
  rw [castSigned_eq]
  exact castsDefined_mapError _

theorem castUnsigned_defined (value : RootPrimitiveValue) : CastsDefined value.castUnsigned := by
  rw [castUnsigned_eq]
  exact castsDefined_mapError _

/-! ### The narrow accessors -/

/-- `AsInteger<T>` for a signed `T`. -/
def asSignedInteger {T : Type} (min max : Int64) (narrow : Int64 → T)
    (value : RootPrimitiveValue) : Except ConversionFault T := do
  let number ← value.castSigned
  if number < min ∨ max < number then
    .error (.thrown ⟨"ROOT primitive exceeds its signed SQL integer target range"⟩)
  else .ok (narrow number)

/-- `AsInteger<T>` for an unsigned `T`. -/
def asUnsignedInteger {T : Type} (max : UInt64) (narrow : UInt64 → T)
    (value : RootPrimitiveValue) : Except ConversionFault T := do
  let number ← value.castUnsigned
  if max < number then
    .error (.thrown ⟨"ROOT primitive exceeds its unsigned SQL integer target range"⟩)
  else .ok (narrow number)

def asInt8 : RootPrimitiveValue → Except ConversionFault Int8 :=
  asSignedInteger (-128) 127 Int64.toInt8

def asUInt8 : RootPrimitiveValue → Except ConversionFault UInt8 :=
  asUnsignedInteger 255 UInt64.toUInt8

def asInt16 : RootPrimitiveValue → Except ConversionFault Int16 :=
  asSignedInteger (-32768) 32767 Int64.toInt16

def asUInt16 : RootPrimitiveValue → Except ConversionFault UInt16 :=
  asUnsignedInteger 65535 UInt64.toUInt16

def asInt32 : RootPrimitiveValue → Except ConversionFault Int32 :=
  asSignedInteger (-2147483648) 2147483647 Int64.toInt32

def asUInt32 : RootPrimitiveValue → Except ConversionFault UInt32 :=
  asUnsignedInteger 4294967295 UInt64.toUInt32

def asInt64 : RootPrimitiveValue → Except ConversionFault Int64 :=
  asSignedInteger Int64.minValue Int64.maxValue id

def asUInt64 : RootPrimitiveValue → Except ConversionFault UInt64 :=
  asUnsignedInteger 18446744073709551615 id

/-- `numeric_limits<float>::max()` as a double. -/
def floatMax : Double := .ofFloat32 0x7F7FFFFF

def floatLowest : Double := .ofFloat32 0xFF7FFFFF

/-- The binary32 word of `AsFloat`. -/
def asFloat (value : RootPrimitiveValue) : Except ConversionFault UInt32 :=
  if value.asDouble.isFinite && (floatMax.lt value.asDouble || value.asDouble.lt floatLowest) then
    .error (.thrown ⟨"ROOT primitive exceeds its SQL FLOAT target range"⟩)
  else .ok (UInt32.ofNat value.asDouble.toFloat32)

/-- A NaN differs from zero. -/
def asBool : RootPrimitiveValue → Bool
  | signed value => value ≠ 0
  | unsigned value => value ≠ 0
  | floating value => !value.eq .zero

theorem asSignedInteger_defined {T : Type} (min max : Int64) (narrow : Int64 → T)
    (value : RootPrimitiveValue) : CastsDefined (asSignedInteger min max narrow value) := by
  apply CastsDefined.bind (castSigned_defined value)
  intro number _
  split
  · exact CastsDefined.thrown _
  · exact CastsDefined.ok _

theorem asUnsignedInteger_defined {T : Type} (max : UInt64) (narrow : UInt64 → T)
    (value : RootPrimitiveValue) : CastsDefined (asUnsignedInteger max narrow value) := by
  apply CastsDefined.bind (castUnsigned_defined value)
  intro number _
  split
  · exact CastsDefined.thrown _
  · exact CastsDefined.ok _

theorem asFloat_defined (value : RootPrimitiveValue) : CastsDefined value.asFloat := by
  rw [asFloat]
  split
  · exact CastsDefined.thrown _
  · exact CastsDefined.ok _

example : asInt8 (.signed 128) =
    .error (.thrown ⟨"ROOT primitive exceeds its signed SQL integer target range"⟩) := by
  decide

end RootPrimitiveValue

/-! ### Values of a column -/

/-- A DuckDB value, or what a vector holds in one row. A float is its binary32 word. -/
inductive ScalarValue where
  | null (type : LogicalTypeId)
  | boolean (value : Bool)
  | tinyint (value : Int8)
  | utinyint (value : UInt8)
  | smallint (value : Int16)
  | usmallint (value : UInt16)
  | integer (value : Int32)
  | uinteger (value : UInt32)
  | bigint (value : Int64)
  | ubigint (value : UInt64)
  | float (word : UInt32)
  | double (value : Double)
  | varchar (value : String)
  /-- `Value::DOUBLE(value).DefaultCastAs(type)`. -/
  | castDouble (value : Double) (type : LogicalTypeId)
  deriving DecidableEq, Repr

/-- DuckDB's name of a type. -/
def LogicalTypeId.name : LogicalTypeId → String
  | .boolean => "BOOLEAN"
  | .tinyint => "TINYINT"
  | .utinyint => "UTINYINT"
  | .smallint => "SMALLINT"
  | .usmallint => "USMALLINT"
  | .integer => "INTEGER"
  | .uinteger => "UINTEGER"
  | .bigint => "BIGINT"
  | .ubigint => "UBIGINT"
  | .float => "FLOAT"
  | .double => "DOUBLE"
  | .varchar => "VARCHAR"
  | .sqlnull => "NULL"
  | .hugeint => "HUGEINT"
  | .uhugeint => "UHUGEINT"

open RootPrimitiveValue

/-- Writes a double into the column of its dataset. -/
def setDoubleAsType (type : LogicalTypeId) (value : Double) :
    Except ConversionFault ScalarValue :=
  match type with
  | .boolean => .ok (.boolean (!value.eq .zero))
  | .tinyint => .tinyint <$> (floating value).asInt8
  | .utinyint => .utinyint <$> (floating value).asUInt8
  | .smallint => .smallint <$> (floating value).asInt16
  | .usmallint => .usmallint <$> (floating value).asUInt16
  | .integer => .integer <$> (floating value).asInt32
  | .uinteger => .uinteger <$> (floating value).asUInt32
  | .bigint => .bigint <$> (floating value).asInt64
  | .ubigint => .ubigint <$> (floating value).asUInt64
  | .float => .float <$> (floating value).asFloat
  | .double => .ok (.double value)
  | .varchar | .sqlnull | .hugeint | .uhugeint =>
      .error (.thrown ⟨"Unsupported ROOT dataset output type " ++ type.name⟩)

/-- Writes a typed value into the column of its dataset. -/
def setPrimitiveAsType (type : LogicalTypeId) (value : RootPrimitiveValue) :
    Except ConversionFault ScalarValue :=
  match type with
  | .bigint => .bigint <$> value.castSigned
  | .ubigint => .ubigint <$> value.castUnsigned
  | _ => .error (.thrown ⟨"Typed dataset writer used for non-64-bit type " ++ type.name⟩)

/-- Writes a value into a column of the direct scan; `none` where the row becomes invalid. -/
def writeNumericValue (type : LogicalTypeId) (value : RootPrimitiveValue) :
    Except ConversionFault (Option ScalarValue) :=
  match type with
  | .tinyint => (fun number => some (.tinyint number)) <$> value.asInt8
  | .utinyint => (fun number => some (.utinyint number)) <$> value.asUInt8
  | .smallint => (fun number => some (.smallint number)) <$> value.asInt16
  | .usmallint => (fun number => some (.usmallint number)) <$> value.asUInt16
  | .integer => (fun number => some (.integer number)) <$> value.asInt32
  | .uinteger => (fun number => some (.uinteger number)) <$> value.asUInt32
  | .bigint => (fun number => some (.bigint number)) <$> value.castSigned
  | .ubigint => (fun number => some (.ubigint number)) <$> value.castUnsigned
  | .float => (fun word => some (.float word)) <$> value.asFloat
  | .double => .ok (some (.double value.asDouble))
  | .boolean => .ok (some (.boolean value.asBool))
  | .varchar | .sqlnull | .hugeint | .uhugeint => .ok none

theorem setDoubleAsType_defined (type : LogicalTypeId) (value : Double) :
    CastsDefined (setDoubleAsType type value) := by
  cases type
  case boolean | double => exact CastsDefined.ok _
  case varchar | sqlnull | hugeint | uhugeint => exact CastsDefined.thrown _
  case tinyint | smallint | integer | bigint =>
    exact CastsDefined.map (asSignedInteger_defined _ _ _ _)
  case utinyint | usmallint | uinteger | ubigint =>
    exact CastsDefined.map (asUnsignedInteger_defined _ _ _)
  case float => exact CastsDefined.map (asFloat_defined _)

theorem setPrimitiveAsType_defined (type : LogicalTypeId) (value : RootPrimitiveValue) :
    CastsDefined (setPrimitiveAsType type value) := by
  cases type
  case bigint => exact CastsDefined.map (castSigned_defined _)
  case ubigint => exact CastsDefined.map (castUnsigned_defined _)
  all_goals exact CastsDefined.thrown _

theorem writeNumericValue_defined (type : LogicalTypeId) (value : RootPrimitiveValue) :
    CastsDefined (writeNumericValue type value) := by
  cases type
  case boolean | double | varchar | sqlnull | hugeint | uhugeint => exact CastsDefined.ok _
  case tinyint | smallint | integer => exact CastsDefined.map (asSignedInteger_defined _ _ _ _)
  case utinyint | usmallint | uinteger => exact CastsDefined.map (asUnsignedInteger_defined _ _ _)
  case bigint => exact CastsDefined.map (castSigned_defined _)
  case ubigint => exact CastsDefined.map (castUnsigned_defined _)
  case float => exact CastsDefined.map (asFloat_defined _)

end RootLake

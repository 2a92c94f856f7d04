/-
  RootLake/Dataset/DoubleTransport.lean
  =====================================
  **Values carried as doubles.**

  A dataset scan carries every value as a double, unless its column holds 64-bit integers.
  `IndexedValue` are the values of the nine other types, each with the primitive the
  readers decode for it and its SQL value.  Writing the double gives the SQL value back
  (`setDoubleAsType_asDouble`), and so does the scalar of a filter, on the double and on the
  primitive alike (`toValue_numeric`, `toValue_primitive`), on any machine that implements
  the casts: a filter never reads the integer its type does not need.
-/
import RootLake.Dataset.ScalarActual

namespace RootLake.Dataset

open Ieee RootPrimitiveValue

/-! ### Values -/

/-- A value of an indexed column that is not a 64-bit integer. -/
inductive IndexedValue where
  | boolean (value : Bool)
  | tinyint (value : Int8)
  | utinyint (value : UInt8)
  | smallint (value : Int16)
  | usmallint (value : UInt16)
  | integer (value : Int32)
  | uinteger (value : UInt32)
  | float (word : UInt32)
  | double (value : Double)
  deriving DecidableEq, Repr

namespace IndexedValue

def type : IndexedValue → LogicalTypeId
  | boolean _ => .boolean
  | tinyint _ => .tinyint
  | utinyint _ => .utinyint
  | smallint _ => .smallint
  | usmallint _ => .usmallint
  | integer _ => .integer
  | uinteger _ => .uinteger
  | float _ => .float
  | double _ => .double

/-- What `FromPointer` and the serialized decoder make of the stored value. -/
def primitive : IndexedValue → RootPrimitiveValue
  | boolean value => .unsigned (if value then 1 else 0)
  | tinyint value => .signed value.toInt64
  | utinyint value => .unsigned value.toUInt64
  | smallint value => .signed value.toInt64
  | usmallint value => .unsigned value.toUInt64
  | integer value => .signed value.toInt64
  | uinteger value => .unsigned value.toUInt64
  | float word => .floating (.ofFloat32 word.toNat)
  | double value => .floating value

/-- The value in SQL. A float's NaN is quiet as soon as it is loaded. -/
def value : IndexedValue → ScalarValue
  | boolean value => .boolean value
  | tinyint value => .tinyint value
  | utinyint value => .utinyint value
  | smallint value => .smallint value
  | usmallint value => .usmallint value
  | integer value => .integer value
  | uinteger value => .uinteger value
  | float word => .float (UInt32.ofNat (Double.quietFloat32 word.toNat))
  | double value => .double value

end IndexedValue

/-! ### Integers on their way through a double -/

section

variable {i : Int}

theorem toInt64_ofInt (h : i.natAbs < 2 ^ 53) :
    FloatingCast.checked.toInt64 (.ofInt i) = .ok (Int64.ofInt i) := by
  have htrunc := Double.trunc_ofInt h
  have hfinite := Double.ofInt_isFinite (i := i) (by omega)
  rw [FloatingCast.checked_toInt64, htrunc]
  exact Double.truncatesInto_iff.mpr ⟨hfinite, by omega, by omega⟩

theorem toUInt64_ofInt (h : i.natAbs < 2 ^ 53) (hpos : 0 ≤ i) :
    FloatingCast.checked.toUInt64 (.ofInt i) = .ok (UInt64.ofNat i.toNat) := by
  have htrunc := Double.trunc_ofInt h
  have hfinite := Double.ofInt_isFinite (i := i) (by omega)
  rw [FloatingCast.checked_toUInt64, htrunc]
  exact Double.truncatesInto_iff.mpr ⟨hfinite, by omega, by omega⟩

theorem castSigned_ofInt (h : i.natAbs < 2 ^ 53) :
    (floating (.ofInt i)).castSigned = .ok (Int64.ofInt i) := by
  have htrunc := Double.trunc_ofInt h
  have hfinite := Double.ofInt_isFinite (i := i) (by omega)
  have hlow : (Double.ofInt i).lt (.ofInt (-2 ^ 63)) = false := by
    have hmin : (Double.ofInt (-2 ^ 63)).isFinite = true := by decide
    have hmono := Double.ofInt_key_mono (i := -2 ^ 63) (j := i) (by decide) (by omega) (by omega)
    rw [Bool.eq_false_iff, Ne,
      Double.lt_iff (Double.isFinite.not_nan hfinite) (Double.isFinite.not_nan hmin)]
    omega
  have hhigh : (Double.ofInt (2 ^ 63)).le (.ofInt i) = false :=
    (Double.trunc_lt_two_pow_iff (e := 63) (by decide) (by decide) hfinite).mpr (by omega)
  rw [castSigned, hfinite, hlow, hhigh]
  exact toInt64_ofInt h

theorem castUnsigned_ofInt (h : i.natAbs < 2 ^ 53) (hpos : 0 ≤ i) :
    (floating (.ofInt i)).castUnsigned = .ok (UInt64.ofNat i.toNat) := by
  have htrunc := Double.trunc_ofInt h
  have hfinite := Double.ofInt_isFinite (i := i) (by omega)
  have hlow : decide ((Double.ofInt i).trunc < 0) = false := by
    rw [htrunc]
    exact decide_eq_false (by omega)
  have hhigh : (Double.ofInt (2 ^ 64)).le (.ofInt i) = false :=
    (Double.trunc_lt_two_pow_iff (e := 64) (by decide) (by decide) hfinite).mpr (by omega)
  rw [castUnsigned, hfinite, hlow, hhigh]
  exact toUInt64_ofInt h hpos

end

/-- A signed value of a narrow type comes back from its double. -/
theorem asSignedInteger_asDouble {T : Type} (min max : Int64) (narrow : Int64 → T)
    {number : Int64} (h : number.toInt.natAbs < 2 ^ 53) (hmin : min.toInt ≤ number.toInt)
    (hmax : number.toInt ≤ max.toInt) :
    asSignedInteger min max narrow (floating (.ofInt number.toInt)) = .ok (narrow number) := by
  have hrange : ¬ (number < min ∨ max < number) := by
    simp only [Int64.lt_iff_toInt_lt]
    omega
  simp only [asSignedInteger, castSigned_ofInt h, Int64.ofInt_toInt]
  exact if_neg hrange

theorem asUnsignedInteger_asDouble {T : Type} (max : UInt64) (narrow : UInt64 → T)
    {number : UInt64} (h : number.toNat < 2 ^ 53) (hmax : number.toNat ≤ max.toNat) :
    asUnsignedInteger max narrow (floating (.ofInt number.toNat)) = .ok (narrow number) := by
  have hrange : ¬ max < number := by
    rw [UInt64.lt_iff_toNat_lt]
    omega
  simp only [asUnsignedInteger, castUnsigned_ofInt (i := number.toNat) (by omega) (by omega),
    Int.toNat_natCast, UInt64.ofNat_toNat]
  exact if_neg hrange

/-! ### Writing the double -/

/-- No finite float is out of the range `AsFloat` checks. -/
theorem asFloat_ofFloat32 (word : UInt32) :
    (floating (.ofFloat32 word.toNat)).asFloat =
      .ok (UInt32.ofNat (Double.quietFloat32 word.toNat)) := by
  have hrange : ((Double.ofFloat32 word.toNat).isFinite &&
      (floatMax.lt (.ofFloat32 word.toNat) || (Double.ofFloat32 word.toNat).lt floatLowest)) =
        false := by
    by_cases hfinite : (Double.ofFloat32 word.toNat).isFinite = true
    · have hmagnitude : (Double.ofFloat32 word.toNat).magnitude ≤ floatMax.magnitude := by
        rw [Double.isFinite_iff, Double.ofFloat32_magnitude] at hfinite
        rw [Double.ofFloat32_magnitude]
        exact Double.float32Magnitude_le (Nat.mod_lt _ (by decide)) (Nat.mod_lt _ (by decide))
          hfinite
      have habs := Double.key_natAbs (.ofFloat32 word.toNat)
      have hmax : floatMax.key = (floatMax.magnitude : Int) := by decide
      have hlowest : floatLowest.key = -(floatMax.magnitude : Int) := by decide
      rw [hfinite, Bool.true_and, Bool.or_eq_false_iff, Bool.eq_false_iff, Bool.eq_false_iff, Ne, Ne,
        Double.lt_iff (by decide) (Double.isFinite.not_nan hfinite),
        Double.lt_iff (Double.isFinite.not_nan hfinite) (by decide)]
      omega
    · rw [Bool.not_eq_true] at hfinite
      rw [hfinite]
      rfl
  rw [asFloat, asDouble, hrange, Double.toFloat32_ofFloat32 word.toNat_lt]
  rfl

theorem setDoubleAsType_asDouble (v : IndexedValue) :
    setDoubleAsType v.type v.primitive.asDouble = .ok v.value := by
  cases v with
  | boolean value => cases value <;> decide
  | tinyint value =>
      have hlow := value.le_toInt
      have hhigh := value.toInt_lt
      have hmin : (-128 : Int64).toInt = -128 := by decide
      have hmax : (127 : Int64).toInt = 127 := by decide
      have hwide := value.toInt_toInt64
      have hnarrow := asSignedInteger_asDouble (-128) 127 Int64.toInt8
        (show value.toInt64.toInt.natAbs < 2 ^ 53 by omega) (by omega) (by omega)
      rw [Int8.toInt8_toInt64] at hnarrow
      exact congrArg (ScalarValue.tinyint <$> ·) hnarrow
  | smallint value =>
      have hlow := value.le_toInt
      have hhigh := value.toInt_lt
      have hmin : (-32768 : Int64).toInt = -32768 := by decide
      have hmax : (32767 : Int64).toInt = 32767 := by decide
      have hwide := value.toInt_toInt64
      have hnarrow := asSignedInteger_asDouble (-32768) 32767 Int64.toInt16
        (show value.toInt64.toInt.natAbs < 2 ^ 53 by omega) (by omega) (by omega)
      rw [Int16.toInt16_toInt64] at hnarrow
      exact congrArg (ScalarValue.smallint <$> ·) hnarrow
  | integer value =>
      have hlow := value.le_toInt
      have hhigh := value.toInt_lt
      have hmin : (-2147483648 : Int64).toInt = -2147483648 := by decide
      have hmax : (2147483647 : Int64).toInt = 2147483647 := by decide
      have hwide := value.toInt_toInt64
      have hnarrow := asSignedInteger_asDouble (-2147483648) 2147483647 Int64.toInt32
        (show value.toInt64.toInt.natAbs < 2 ^ 53 by omega) (by omega) (by omega)
      rw [Int32.toInt32_toInt64] at hnarrow
      exact congrArg (ScalarValue.integer <$> ·) hnarrow
  | utinyint value =>
      have hhigh := value.toNat_lt
      have hmax : (255 : UInt64).toNat = 255 := by decide
      have hwide := value.toNat_toUInt64
      have hnarrow := asUnsignedInteger_asDouble 255 UInt64.toUInt8
        (show value.toUInt64.toNat < 2 ^ 53 by omega) (by omega)
      rw [UInt8.toUInt8_toUInt64] at hnarrow
      exact congrArg (ScalarValue.utinyint <$> ·) hnarrow
  | usmallint value =>
      have hhigh := value.toNat_lt
      have hmax : (65535 : UInt64).toNat = 65535 := by decide
      have hwide := value.toNat_toUInt64
      have hnarrow := asUnsignedInteger_asDouble 65535 UInt64.toUInt16
        (show value.toUInt64.toNat < 2 ^ 53 by omega) (by omega)
      rw [UInt16.toUInt16_toUInt64] at hnarrow
      exact congrArg (ScalarValue.usmallint <$> ·) hnarrow
  | uinteger value =>
      have hhigh := value.toNat_lt
      have hmax : (4294967295 : UInt64).toNat = 4294967295 := by decide
      have hwide := value.toNat_toUInt64
      have hnarrow := asUnsignedInteger_asDouble 4294967295 UInt64.toUInt32
        (show value.toUInt64.toNat < 2 ^ 53 by omega) (by omega)
      rw [UInt32.toUInt32_toUInt64] at hnarrow
      exact congrArg (ScalarValue.uinteger <$> ·) hnarrow
  | float word => exact congrArg (ScalarValue.float <$> ·) (asFloat_ofFloat32 word)
  | double value => rfl

/-! ### The scalars of a filter -/

section

variable {cast : FloatingCast Id}

/-- Zero and one are told apart as doubles. -/
theorem truth_asDouble (value : Bool) :
    (!(RootPrimitiveValue.unsigned (if value then 1 else 0)).asDouble.eq .zero) = value := by
  cases value <;> decide

/-- The scalar of the primitive is the value. -/
theorem toValue_primitive (v : IndexedValue) :
    ((datasetPrimitiveActual v.type v.primitive).fields cast).run.toValue = v.value := by
  cases v with
  | boolean value => exact congrArg ScalarValue.boolean (truth_asDouble value)
  | tinyint value => exact congrArg ScalarValue.tinyint value.toInt8_toInt64
  | smallint value => exact congrArg ScalarValue.smallint value.toInt16_toInt64
  | integer value => exact congrArg ScalarValue.integer value.toInt32_toInt64
  | utinyint value => exact congrArg ScalarValue.utinyint value.toUInt8_toUInt64
  | usmallint value => exact congrArg ScalarValue.usmallint value.toUInt16_toUInt64
  | uinteger value => exact congrArg ScalarValue.uinteger value.toUInt32_toUInt64
  | float word =>
      exact congrArg (ScalarValue.float ∘ UInt32.ofNat)
        (Double.toFloat32_ofFloat32 word.toNat_lt)
  | double value => rfl

theorem cast_toInt64_asDouble (hcast : cast.Implements) {number : Int64}
    (h : number.toInt.natAbs < 2 ^ 53) : cast.toInt64 (.ofInt number.toInt) = number := by
  have hdefined := hcast.toInt64_eq (toInt64_ofInt h)
  rwa [Int64.ofInt_toInt] at hdefined

theorem cast_toUInt64_asDouble (hcast : cast.Implements) {number : UInt64}
    (h : number.toNat < 2 ^ 53) : cast.toUInt64 (.ofInt number.toNat) = number := by
  have hdefined := hcast.toUInt64_eq (toUInt64_ofInt (i := number.toNat) (by omega) (by omega))
  rwa [Int.toNat_natCast, UInt64.ofNat_toNat] at hdefined

/-- The scalar of the double is the value too: of its two casts, the one the type reads is
    defined. -/
theorem toValue_numeric (hcast : cast.Implements) (v : IndexedValue) :
    ((RootScalarActual.numeric v.type v.primitive.asDouble).fields cast).run.toValue =
      v.value := by
  cases v with
  | boolean value => exact congrArg ScalarValue.boolean (truth_asDouble value)
  | tinyint value =>
      have hlow := value.le_toInt
      have hhigh := value.toInt_lt
      have hwide := value.toInt_toInt64
      have hsigned := cast_toInt64_asDouble hcast
        (show value.toInt64.toInt.natAbs < 2 ^ 53 by omega)
      exact congrArg ScalarValue.tinyint
        ((congrArg Int64.toInt8 hsigned).trans value.toInt8_toInt64)
  | smallint value =>
      have hlow := value.le_toInt
      have hhigh := value.toInt_lt
      have hwide := value.toInt_toInt64
      have hsigned := cast_toInt64_asDouble hcast
        (show value.toInt64.toInt.natAbs < 2 ^ 53 by omega)
      exact congrArg ScalarValue.smallint
        ((congrArg Int64.toInt16 hsigned).trans value.toInt16_toInt64)
  | integer value =>
      have hlow := value.le_toInt
      have hhigh := value.toInt_lt
      have hwide := value.toInt_toInt64
      have hsigned := cast_toInt64_asDouble hcast
        (show value.toInt64.toInt.natAbs < 2 ^ 53 by omega)
      exact congrArg ScalarValue.integer
        ((congrArg Int64.toInt32 hsigned).trans value.toInt32_toInt64)
  | utinyint value =>
      have hhigh := value.toNat_lt
      have hwide := value.toNat_toUInt64
      have hunsigned := cast_toUInt64_asDouble hcast
        (show value.toUInt64.toNat < 2 ^ 53 by omega)
      exact congrArg ScalarValue.utinyint
        ((congrArg UInt64.toUInt8 hunsigned).trans value.toUInt8_toUInt64)
  | usmallint value =>
      have hhigh := value.toNat_lt
      have hwide := value.toNat_toUInt64
      have hunsigned := cast_toUInt64_asDouble hcast
        (show value.toUInt64.toNat < 2 ^ 53 by omega)
      exact congrArg ScalarValue.usmallint
        ((congrArg UInt64.toUInt16 hunsigned).trans value.toUInt16_toUInt64)
  | uinteger value =>
      have hhigh := value.toNat_lt
      have hwide := value.toNat_toUInt64
      have hunsigned := cast_toUInt64_asDouble hcast
        (show value.toUInt64.toNat < 2 ^ 53 by omega)
      exact congrArg ScalarValue.uinteger
        ((congrArg UInt64.toUInt32 hunsigned).trans value.toUInt32_toUInt64)
  | float word => exact toValue_primitive (.float word)
  | double value => rfl

/-! ### The transport -/

variable {Filter : Type} (select : SelectExpression Filter)

/-- The row of a value that is carried typed. -/
def typedRow (row : DatasetRow) (v : IndexedValue) : DatasetRow :=
  { row with value := .primitive v.primitive }

/-- The row of a value that is carried as a double. -/
def doubleRow (row : DatasetRow) (v : IndexedValue) : DatasetRow :=
  { row with value := .double v.primitive.asDouble }

theorem selectEvaluate_doubleRow (hcast : cast.Implements) {bind : DatasetBindData}
    {v : IndexedValue} (htype : bind.valueType = v.type) (row : DatasetRow) (filter : Filter)
    (column : Nat) :
    selectEvaluate cast select filter (datasetRowActual bind (doubleRow row v) column) =
      selectEvaluate cast select filter (datasetRowActual bind (typedRow row v) column) := by
  by_cases hvalue : column ≠ 0 ∧ ¬ (1 ≤ column ∧ column < bind.valueColumn) ∧
      column = bind.valueColumn
  · obtain ⟨hzero, hindex, hcolumn⟩ := hvalue
    have hdouble : datasetRowActual bind (doubleRow row v) column =
        .numeric v.type v.primitive.asDouble := by
      simp only [datasetRowActual, if_neg hzero, if_neg hindex, if_pos hcolumn, doubleRow, htype]
    have htyped : datasetRowActual bind (typedRow row v) column =
        datasetPrimitiveActual v.type v.primitive := by
      simp only [datasetRowActual, if_neg hzero, if_neg hindex, if_pos hcolumn, typedRow, htype]
    rw [hdouble, htyped]
    exact congrArg (select filter)
      ((toValue_numeric hcast v).trans (toValue_primitive v).symm)
  · -- No other column shows the value.
    have hsame : datasetRowActual bind (doubleRow row v) column =
        datasetRowActual bind (typedRow row v) column := by
      simp only [datasetRowActual, doubleRow, typedRow]
      split
      · rfl
      · split
        · rfl
        · split
          next hzero hindex hcolumn => exact absurd ⟨hzero, hindex, hcolumn⟩ hvalue
          next => rfl
    rw [hsame]

/-- **The double transport is lossless.** -/
theorem doubleTransport_lossless (hcast : cast.Implements) (bind : DatasetBindData)
    (elementFilters : List (RootFilterBinding Filter)) (row : DatasetRow) (v : IndexedValue)
    (htype : bind.valueType = v.type) :
    setDoubleAsType bind.valueType v.primitive.asDouble = .ok v.value ∧
      (∀ filter, selectEvaluate cast select filter
          (.numeric bind.valueType v.primitive.asDouble) = select filter v.value) ∧
      passesFilters (selectEvaluate cast select) bind elementFilters (doubleRow row v) =
        passesFilters (selectEvaluate cast select) bind elementFilters (typedRow row v) := by
  refine ⟨?_, ?_, ?_⟩
  · rw [htype]
    exact setDoubleAsType_asDouble v
  · intro filter
    rw [htype]
    exact congrArg (select filter) (toValue_numeric hcast v)
  · rw [passesFilters, passesFilters, evaluateRootRowFilters, evaluateRootRowFilters]
    congr 1
    funext binding
    exact selectEvaluate_doubleRow select hcast htype row binding.filter binding.columnId

end

/-- A machine that answers an undefined cast with the integer of the sign bit alone. -/
def indefiniteCast : FloatingCast Id where
  toInt64 value :=
    if value.truncatesInto (-2 ^ 63) (2 ^ 63 - 1) then Int64.ofInt value.trunc else Int64.minValue
  toUInt64 value :=
    if value.truncatesInto 0 (2 ^ 64 - 1) then UInt64.ofNat value.trunc.toNat
    else 9223372036854775808

theorem indefiniteCast_implements : indefiniteCast.Implements where
  toInt64_eq := by
    intro value result h
    simp only [FloatingCast.checked] at h
    split at h
    next hrange =>
      cases h
      exact if_pos hrange
    next => cases h
  toUInt64_eq := by
    intro value result h
    simp only [FloatingCast.checked] at h
    split at h
    next hrange =>
      cases h
      exact if_pos hrange
    next => cases h

/-- A negative integer, whose unsigned cast is undefined. -/
theorem minusFive_is_lossless :
    setDoubleAsType .integer (.ofInt (-5)) = .ok (.integer (-5)) ∧
      (∀ filter : ScalarValue, selectEvaluate indefiniteCast (fun f v => f == v) filter
          (.numeric .integer (.ofInt (-5))) = (filter == .integer (-5))) ∧
      passesFilters (selectEvaluate indefiniteCast fun f v => f == v) { valueType := .integer }
          [⟨1, .integer (-5)⟩] (doubleRow ⟨7, [], .double .zero, "data.root", 7⟩ (.integer (-5))) =
        passesFilters (selectEvaluate indefiniteCast fun f v => f == v) { valueType := .integer }
          [⟨1, .integer (-5)⟩] (typedRow ⟨7, [], .double .zero, "data.root", 7⟩ (.integer (-5))) :=
  doubleTransport_lossless (fun f v => f == v) indefiniteCast_implements { valueType := .integer }
    [⟨1, .integer (-5)⟩] ⟨7, [], .double .zero, "data.root", 7⟩ (.integer (-5)) rfl

end RootLake.Dataset

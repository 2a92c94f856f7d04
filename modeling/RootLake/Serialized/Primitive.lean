import RootLake.Lib.Bytes
import RootLake.Serialized.Codec

/-!
# Primitive values in serialized bytes

ROOT stores the numbers of an entry in big-endian order. `decodePrimitive` reads one number
where a pointer stands; the bytes from there to the end of the entry are its argument, and it
has no value to give when they are too few. A `CheckedByteCursor` never reads past the bytes
it was made for.
-/

namespace RootLake.Serialized

open RootLake.Bytes RootLake.Ieee

/-! ### Type names -/

/-- The characters `find_first_not_of(" \t\r\n")` passes over. -/
def isBlank (c : Char) : Bool := c = ' ' || c = '\t' || c = '\r' || c = '\n'

def normalizePrimitiveType (type : String) : String :=
  let trimmed := ((type.toList.dropWhile isBlank).reverse.dropWhile isBlank).reverse
  String.ofList (if "std::".toList.isPrefixOf trimmed then trimmed.drop 5 else trimmed)

def classifySerializedPrimitive (rawType : String) : SerializedPrimitiveKind :=
  let type := normalizePrimitiveType rawType
  if type ∈ ["Bool_t", "bool", "O"] then .bool
  else if type ∈ ["Char_t", "char", "b"] then .int8
  else if type ∈ ["UChar_t", "unsigned char", "B"] then .uint8
  else if type ∈ ["Short_t", "short", "S"] then .int16
  else if type ∈ ["UShort_t", "unsigned short", "s"] then .uint16
  else if type ∈ ["Int_t", "int", "I"] then .int32
  else if type ∈ ["UInt_t", "unsigned int", "i"] then .uint32
  else if type ∈ ["Long64_t", "long long", "L"] then .int64
  else if type ∈ ["ULong64_t", "unsigned long long", "l"] then .uint64
  else if type ∈ ["Float_t", "float", "F"] then .float32
  else if type ∈ ["Double_t", "double", "D"] then .float64
  else .unknown

/-! ### One number -/

/-- The value a primitive's stored bits mean. -/
def primitiveOfBits (bits : Nat) : SerializedPrimitiveKind → Option RootPrimitiveValue
  | .unknown => none
  | .bool => some (.unsigned (if bits ≠ 0 then 1 else 0))
  | .int8 => some (.signed (Int8.ofNat bits).toInt64)
  | .int16 => some (.signed (Int16.ofNat bits).toInt64)
  | .int32 => some (.signed (Int32.ofNat bits).toInt64)
  | .int64 => some (.signed (Int64.ofNat bits))
  | .uint8 | .uint16 | .uint32 | .uint64 => some (.unsigned (UInt64.ofNat bits))
  | .float32 => some (.floating (.ofFloat32 bits))
  | .float64 => some (.floating ⟨UInt64.ofNat bits⟩)

/-- `DecodePrimitiveExact`. -/
def decodePrimitive (bytes : List UInt8) (kind : SerializedPrimitiveKind) :
    Option RootPrimitiveValue :=
  if bytes.length < primitiveWidth kind then none
  else primitiveOfBits (ofBigEndian (bytes.take (primitiveWidth kind))) kind

/-- The codec of the program. -/
def rootCodec : Codec where
  classify := classifySerializedPrimitive
  decodePrimitive := decodePrimitive

theorem rootCodec_classify : rootCodec.classify = classifySerializedPrimitive := by
  simp only [rootCodec]

theorem rootCodec_decodePrimitive : rootCodec.decodePrimitive = decodePrimitive := rfl

theorem primitiveWidth_le (kind : SerializedPrimitiveKind) : primitiveWidth kind ≤ 8 := by
  cases kind <;> decide

theorem primitiveOfBits_isSome {kind : SerializedPrimitiveKind} (h : kind ≠ .unknown)
    (bits : Nat) : (primitiveOfBits bits kind).isSome = true := by
  cases kind
  case unknown => exact absurd rfl h
  all_goals rfl

/-- A primitive of a known kind has a value wherever its bytes are there. -/
theorem decodePrimitive_of_le {bytes : List UInt8} {kind : SerializedPrimitiveKind}
    (hkind : kind ≠ .unknown) (h : primitiveWidth kind ≤ bytes.length) :
    ∃ value, decodePrimitive bytes kind = some value := by
  rw [decodePrimitive, if_neg (Nat.not_lt.mpr h)]
  exact Option.isSome_iff_exists.mp (primitiveOfBits_isSome hkind _)

/-- What follows a primitive does not matter. -/
theorem decodePrimitive_encoded {kind : SerializedPrimitiveKind} {bits : Nat}
    (h : bits < 256 ^ primitiveWidth kind) (rest : List UInt8) :
    decodePrimitive (toBigEndian (primitiveWidth kind) bits ++ rest) kind =
      primitiveOfBits bits kind := by
  have hlength : ¬ (toBigEndian (primitiveWidth kind) bits ++ rest).length <
      primitiveWidth kind := by
    rw [List.length_append, length_toBigEndian]
    omega
  rw [decodePrimitive, if_neg hlength, ofBigEndian_take_append h]

end RootLake.Serialized

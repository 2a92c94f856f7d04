import Mathlib.Algebra.Order.Ring.Nat
import Mathlib.Data.List.Basic
import Mathlib.Data.List.TakeWhile
import Mathlib.Data.String.Basic

/-!
# The text of ROOT's types

The names of types as ROOT's streamer metadata spells them: trimmed, without `std::`, with
the extents of a fixed array behind the name. A type that is not a primitive has no width.
-/

namespace RootLake.SemanticTypes

/-- `std::isspace` in the C locale. -/
def isSpace (c : Char) : Bool :=
  c = ' ' || c = '\t' || c = '\n' || c = '\r' || c.toNat = 11 || c.toNat = 12

def stripStd (type : List Char) : List Char :=
  if "std::".toList.isPrefixOf type then type.drop 5 else type

/-- `while (type.rfind("const ", 0) == 0)`. -/
def stripConst : Nat → List Char → List Char
  | 0, type => type
  | fuel + 1, type =>
      if "const ".toList.isPrefixOf type then stripConst fuel (type.drop 6) else type

def trimType (type : List Char) : List Char :=
  let blank := fun c => c = ' ' || c = '\t' || c = '\r' || c = '\n'
  let trimmed := ((type.dropWhile blank).reverse.dropWhile blank).reverse
  let unqualified := stripConst trimmed.length trimmed
  stripStd (unqualified.reverse.dropWhile isSpace).reverse

/-- What `ParseFixedArrayType` finds in a type's name. -/
structure FixedArrayTypeInfo where
  baseType : List Char
  dimensions : List Nat
  length : Nat

def ofDigits (token : List Char) : Nat := Nat.ofDigitChars 10 token 0

/-- `std::stoul`: leading blanks, a sign, and the digits in front. -/
def stoul (token : List Char) : Except String Nat :=
  let signed := token.dropWhile isSpace
  let negative := signed.head? = some '-'
  let digits := (if negative || signed.head? = some '+' then signed.drop 1 else signed).takeWhile
    Char.isDigit
  if digits.isEmpty || ofDigits digits ≥ 2 ^ 64 then .error "stoul"
  else .ok (if negative then (2 ^ 64 - ofDigits digits) % 2 ^ 64 else ofDigits digits)

/-- The loop over the brackets; `none` where the text ends it without an array. -/
def parseExtents (rawType : String) :
    Nat → List Char → List Nat → Nat → Except String (Option (List Nat × Nat))
  | 0, _, dimensions, length => .ok (some (dimensions, length))
  | fuel + 1, suffix, dimensions, length =>
      match suffix.dropWhile (· ≠ '[') with
      | [] => .ok (some (dimensions, length))
      | _ :: afterOpen =>
          let token := afterOpen.takeWhile (· ≠ ']')
          match afterOpen.dropWhile (· ≠ ']') with
          | [] => .ok none
          | _ :: afterClose =>
              if token.isEmpty || !token.all Char.isDigit then .ok none
              else
                match stoul token with
                | .error e => .error e
                | .ok number =>
                    let dimension := number % 2 ^ 32
                    if dimension = 0 || length > (2 ^ 64 - 1) / dimension then
                      .error ("Invalid or overflowing fixed ROOT array type: " ++ rawType)
                    else
                      parseExtents rawType fuel afterClose (dimensions ++ [dimension])
                        (length * dimension)

def parseFixedArrayType (rawType : String) : Except String FixedArrayTypeInfo :=
  let base := stripStd rawType.toList
  let suffix := base.dropWhile (· ≠ '[')
  if suffix.isEmpty then .ok ⟨base, [], 0⟩
  else
    let trimmed := trimType (base.takeWhile (· ≠ '['))
    match parseExtents rawType suffix.length suffix [] 1 with
    | .error e => .error e
    | .ok none => .ok ⟨trimmed, [], 0⟩
    | .ok (some (dimensions, length)) =>
        .ok ⟨trimmed, dimensions, if dimensions.isEmpty then 0 else length⟩

def primitiveBaseType (rawType : String) : Except String String :=
  match parseFixedArrayType rawType with
  | .error e => .error e
  | .ok array =>
      .ok (String.ofList (trimType (if array.length ≠ 0 then array.baseType else rawType.toList)))

/-- The table of `PrimitiveTypeSize`. -/
def sizeOfBaseType (type : String) : Nat :=
  if type ∈ ["Bool_t", "bool", "O", "Char_t", "char", "b", "UChar_t", "unsigned char", "B"] then 1
  else if type ∈ ["Short_t", "short", "S", "UShort_t", "unsigned short", "s"] then 2
  else if type ∈ ["Int_t", "int", "I", "UInt_t", "unsigned int", "i"] then 4
  else if type ∈ ["Long_t", "long", "ULong_t", "unsigned long", "Long64_t", "long long", "L",
    "ULong64_t", "unsigned long long", "l"] then 8
  else if type ∈ ["Float_t", "float", "F"] then 4
  else if type ∈ ["Double_t", "double", "D"] then 8
  else 0

def primitiveTypeSize (rawType : String) : Except String Nat :=
  (primitiveBaseType rawType).map sizeOfBaseType

def primitiveTypes : List String :=
  ["Bool_t", "bool", "Char_t", "char", "UChar_t", "unsigned char", "Short_t", "short",
    "UShort_t", "unsigned short", "Int_t", "int", "UInt_t", "unsigned int", "Long_t", "long",
    "ULong_t", "unsigned long", "Long64_t", "long long", "ULong64_t", "unsigned long long",
    "Float_t", "float", "Double_t", "double"]

def isPrimitiveType (rawType : String) : Except String Bool :=
  (primitiveBaseType rawType).map fun base => base ∈ primitiveTypes

def isStringType (rawType : String) : Bool :=
  String.ofList (trimType rawType.toList) ∈ ["string", "TString"]

/-- ROOT adds 20 to a basic code for arrays and 40 for pointers. -/
def basicTypeCode (typeCode : Int) : Int :=
  if 20 ≤ typeCode ∧ typeCode < 60 then typeCode % 20 else typeCode

def streamerPrimitiveType (typeCode : Int) (rawType : String) : Except String String :=
  match primitiveBaseType rawType with
  | .error e => .error e
  | .ok base =>
      if base ∈ primitiveTypes then .ok base
      else
        .ok <| match basicTypeCode typeCode with
          | 1 => "Char_t"
          | 2 => "Short_t"
          | 3 | 6 => "Int_t"
          | 4 => "Long_t"
          | 5 => "Float_t"
          | 8 | 9 => "Double_t"
          | 11 => "UChar_t"
          | 12 => "UShort_t"
          | 13 | 15 => "UInt_t"
          | 14 => "ULong_t"
          | 16 => "Long64_t"
          | 17 => "ULong64_t"
          | 18 => "Bool_t"
          | 19 => "Float_t"
          | _ => String.ofList (trimType rawType.toList)

/-- A text of digits alone is read whole. -/
theorem stoul_digits {token : List Char} (hne : token ≠ [])
    (hdigit : ∀ c ∈ token, c.isDigit = true) :
    stoul token = if ofDigits token ≥ 2 ^ 64 then .error "stoul" else .ok (ofDigits token) := by
  obtain ⟨c, rest, hcons⟩ := List.exists_cons_of_ne_nil hne
  have hc := hdigit c (hcons ▸ List.mem_cons_self)
  have hspace : isSpace c = false := by
    have hcode : 48 ≤ c.toNat := by
      rw [Char.isDigit, Bool.and_eq_true, decide_eq_true_eq] at hc
      exact hc.1
    by_contra hblank
    simp only [isSpace, Bool.not_eq_false, Bool.or_eq_true, decide_eq_true_eq] at hblank
    rcases hblank with ((((rfl | rfl) | rfl) | rfl) | hcode') | hcode'
    · exact absurd hcode (by decide)
    · exact absurd hcode (by decide)
    · exact absurd hcode (by decide)
    · exact absurd hcode (by decide)
    · omega
    · omega
  have hminus : c ≠ '-' := by
    rintro rfl
    exact absurd hc (by decide)
  have hplus : c ≠ '+' := by
    rintro rfl
    exact absurd hc (by decide)
  have hdrop : token.dropWhile isSpace = token := by
    rw [hcons, List.dropWhile_cons_of_neg (by simp [hspace])]
  have htake : token.takeWhile Char.isDigit = token := List.takeWhile_eq_self_iff.mpr hdigit
  have hhead : token.head? = some c := by rw [hcons, List.head?_cons]
  have hempty : token.isEmpty = false := by rw [hcons, List.isEmpty_cons]
  rw [stoul, hdrop, hhead]
  simp only [Option.some.injEq, hminus, hplus, decide_false, Bool.or_self, Bool.false_eq_true,
    if_false, htake, hempty, Bool.false_or, decide_eq_true_eq]

/-- A number written in digits is read back. -/
theorem stoul_toDigits {n : Nat} (h : n < 2 ^ 64) : stoul (Nat.toDigits 10 n) = .ok n := by
  have hdigit : ∀ c ∈ Nat.toDigits 10 n, c.isDigit = true := fun c hc =>
    Nat.isDigit_of_mem_toDigits (by decide) (by decide) hc
  have hvalue : ofDigits (Nat.toDigits 10 n) = n := by
    rw [ofDigits, Nat.ofDigitChars_ten_toDigits]
  rw [stoul_digits Nat.toDigits_ne_nil hdigit, hvalue, if_neg (Nat.not_le.mpr h)]

/-! ### Templates -/

def templatePrimaryName (rawType : String) : String :=
  String.ofList (trimType ((trimType rawType.toList).takeWhile (· ≠ '<')))

/-- The loop of `TemplateArguments`, with the nesting depth and the argument read so far. -/
def templateArgumentsFrom : List Char → Nat → List Char → List String → List String
  | [], _, _, _ => []
  | '<' :: rest, depth, token, found => templateArgumentsFrom rest (depth + 1) (token ++ ['<']) found
  | '>' :: _, 0, token, found => found ++ [String.ofList (trimType token)]
  | '>' :: rest, depth + 1, token, found => templateArgumentsFrom rest depth (token ++ ['>']) found
  | ',' :: rest, 0, token, found =>
      templateArgumentsFrom rest 0 [] (found ++ [String.ofList (trimType token)])
  | c :: rest, depth, token, found => templateArgumentsFrom rest depth (token ++ [c]) found

def templateArguments (rawType : String) : List String :=
  match rawType.toList.dropWhile (· ≠ '<') with
  | [] => []
  | _ :: rest => templateArgumentsFrom rest 0 [] []

def extractInnerType (containerType : String) : String :=
  (templateArguments containerType).headD ""

def isAssociativeContainerType (rawType : String) : Bool :=
  templatePrimaryName rawType ∈ ["map", "multimap", "unordered_map", "unordered_multimap"]

example : extractInnerType "vector<pair<int,float> >" = "pair<int,float>" := by decide +kernel

end RootLake.SemanticTypes

import Mathlib.Algebra.BigOperators.Group.List.Basic
import RootLake.Reader.SemanticTypes

/-!
# Fixed arrays in the name of a type

A type's name declares a fixed array by its extents in brackets behind the element's type.
`ParseFixedArrayType` reads the extents one bracket after the other. It refuses a zero and a
length beyond 64 bits, but looks at an extent only after its cast to the 32 bits of a
dimension: an extent from 2^32 on is read as its remainder.
-/

namespace RootLake.SemanticTypes

/-- An extent as it is written: decimal digits, leading zeros allowed. -/
structure Extent where
  digits : List Char
  nonempty : digits ≠ []
  isDigit : ∀ c ∈ digits, c.isDigit = true

def Extent.number (extent : Extent) : Nat := ofDigits extent.digits

/-- `static_cast<uint32_t>`. -/
def Extent.dimension (extent : Extent) : Nat := extent.number % 2 ^ 32

/-- An array type as it is written. -/
structure ArrayType where
  base : List Char
  bracketFree : '[' ∉ base
  extents : List Extent

def writtenExtents (extents : List Extent) : List Char :=
  extents.flatMap fun extent => '[' :: (extent.digits ++ [']'])

def ArrayType.rawType (type : ArrayType) : String :=
  String.ofList (type.base ++ writtenExtents type.extents)

theorem Extent.noBracket (extent : Extent) : ∀ c ∈ extent.digits, decide (c ≠ ']') = true := by
  intro c hc
  apply decide_eq_true
  rintro rfl
  exact absurd (extent.isDigit _ hc) (by decide)

theorem writtenExtents_cons (extent : Extent) (extents : List Extent) :
    writtenExtents (extent :: extents) =
      '[' :: (extent.digits ++ ']' :: writtenExtents extents) := by
  simp [writtenExtents]

theorem length_le_writtenExtents (extents : List Extent) :
    extents.length ≤ (writtenExtents extents).length := by
  induction extents with
  | nil => exact Nat.le_refl _
  | cons extent extents ih =>
    rw [writtenExtents_cons, List.length_cons, List.length_cons, List.length_append,
      List.length_cons]
    omega

section Loop

variable (rawType : String)

/-- One bracket: the number is cast before it is checked. -/
theorem parseExtents_cons (fuel : Nat) (extent : Extent) (extents : List Extent)
    (dimensions : List Nat) (length : Nat) :
    parseExtents rawType (fuel + 1) (writtenExtents (extent :: extents)) dimensions length =
      if extent.number ≥ 2 ^ 64 then .error "stoul"
      else if extent.dimension = 0 || length > (2 ^ 64 - 1) / extent.dimension then
        .error ("Invalid or overflowing fixed ROOT array type: " ++ rawType)
      else
        parseExtents rawType fuel (writtenExtents extents) (dimensions ++ [extent.dimension])
          (length * extent.dimension) := by
  have htoken : (extent.digits ++ ']' :: writtenExtents extents).takeWhile (· ≠ ']') =
      extent.digits := by
    rw [List.takeWhile_append_of_pos extent.noBracket, List.takeWhile_cons_of_neg (by decide),
      List.append_nil]
  have hclose : (extent.digits ++ ']' :: writtenExtents extents).dropWhile (· ≠ ']') =
      ']' :: writtenExtents extents := by
    rw [List.dropWhile_append_of_pos extent.noBracket, List.dropWhile_cons_of_neg (by decide)]
  have hdigits : extent.digits.all Char.isDigit = true := List.all_eq_true.mpr extent.isDigit
  have hsome : extent.digits.isEmpty = false := by
    rw [List.isEmpty_eq_false_iff]
    exact extent.nonempty
  rw [writtenExtents_cons, parseExtents, List.dropWhile_cons_of_neg (by decide)]
  simp only [htoken, hclose, hdigits, hsome, Bool.not_true, Bool.or_self, Bool.false_eq_true,
    if_false]
  have hstoul := stoul_digits extent.nonempty extent.isDigit
  by_cases hbig : extent.number ≥ 2 ^ 64
  · rw [hstoul.trans (if_pos hbig)]
    exact (if_pos hbig).symm
  · rw [hstoul.trans (if_neg hbig)]
    exact (if_neg hbig).symm

theorem product_pos {extents : List Extent} (h : ∀ extent ∈ extents, extent.dimension ≠ 0) :
    0 < (extents.map Extent.dimension).prod := by
  refine List.prod_pos_iff_forall_pos_nat.mpr fun d hd => ?_
  obtain ⟨extent, hextent, rfl⟩ := List.mem_map.mp hd
  exact Nat.pos_of_ne_zero (h extent hextent)

/-- The whole loop: what it returns, and just when. -/
theorem parseExtents_ok_iff (extents : List Extent) :
    ∀ {fuel : Nat} {dimensions : List Nat} {length : Nat} {result : Option (List Nat × Nat)},
      extents.length ≤ fuel → length < 2 ^ 64 →
      (parseExtents rawType fuel (writtenExtents extents) dimensions length = .ok result ↔
        (∀ extent ∈ extents, extent.number < 2 ^ 64 ∧ extent.dimension ≠ 0) ∧
        length * (extents.map Extent.dimension).prod < 2 ^ 64 ∧
        result = some (dimensions ++ extents.map Extent.dimension,
          length * (extents.map Extent.dimension).prod)) := by
  induction extents with
  | nil =>
    intro fuel dimensions length result _ hlength
    have hloop : parseExtents rawType fuel (writtenExtents []) dimensions length =
        .ok (some (dimensions, length)) := by
      cases fuel with
      | zero => rfl
      | succ fuel => rfl
    rw [hloop, Except.ok.injEq, List.map_nil, List.prod_nil, Nat.mul_one, List.append_nil]
    exact ⟨fun h => ⟨fun _ hmem => absurd hmem List.not_mem_nil, hlength, h.symm⟩,
      fun h => h.2.2.symm⟩
  | cons extent extents ih =>
    intro fuel dimensions length result hfuel hlength
    obtain ⟨fuel, rfl⟩ : ∃ n, fuel = n + 1 := ⟨fuel - 1, by
      rw [List.length_cons] at hfuel
      omega⟩
    rw [parseExtents_cons, List.forall_mem_cons, List.map_cons, List.prod_cons, ← Nat.mul_assoc]
    by_cases hbig : extent.number ≥ 2 ^ 64
    · rw [if_pos hbig]
      exact ⟨fun h => (nomatch h), fun h => absurd h.1.1.1 (Nat.not_lt.mpr hbig)⟩
    · rw [if_neg hbig]
      by_cases hzero : extent.dimension = 0
      · rw [if_pos (by simp [hzero])]
        exact ⟨fun h => (nomatch h), fun h => absurd hzero h.1.1.2⟩
      · have hpos : 0 < extent.dimension := Nat.pos_of_ne_zero hzero
        by_cases hover : length > (2 ^ 64 - 1) / extent.dimension
        · -- the product of the extents so far is too large already, and can only grow
          have hrefused : (decide (extent.dimension = 0) ||
              decide (length > (2 ^ 64 - 1) / extent.dimension)) = true := by
            rw [decide_eq_true hover, Bool.or_true]
          rw [if_pos hrefused]
          have hproduct : 2 ^ 64 ≤ length * extent.dimension := by
            have := (Nat.div_lt_iff_lt_mul hpos).mp hover
            omega
          refine ⟨fun h => (nomatch h), fun ⟨⟨_, hrest⟩, hfits, _⟩ => ?_⟩
          have hone := product_pos fun e he => (hrest e he).2
          exact absurd (hproduct.trans (Nat.le_mul_of_pos_right _ hone)) (Nat.not_le.mpr hfits)
        · have htaken : ¬ (decide (extent.dimension = 0) ||
              decide (length > (2 ^ 64 - 1) / extent.dimension)) = true := by
            rw [decide_eq_false hzero, decide_eq_false hover]
            decide
          rw [if_neg htaken]
          have hproduct : length * extent.dimension < 2 ^ 64 := by
            have := (Nat.le_div_iff_mul_le hpos).mp (Nat.not_lt.mp hover)
            omega
          rw [ih (Nat.le_of_succ_le_succ hfuel) hproduct, List.append_assoc, List.singleton_append,
            and_iff_right (show extent.number < 2 ^ 64 ∧ extent.dimension ≠ 0 from
              ⟨Nat.not_le.mp hbig, hzero⟩)]

end Loop

/-- A leading `std::` is one of the base type. -/
theorem stripStd_written (type : ArrayType) :
    stripStd (type.base ++ writtenExtents type.extents) =
      stripStd type.base ++ writtenExtents type.extents := by
  have hiff : "std::".toList.isPrefixOf (type.base ++ writtenExtents type.extents) =
      "std::".toList.isPrefixOf type.base := by
    rw [Bool.eq_iff_iff, List.isPrefixOf_iff_prefix, List.isPrefixOf_iff_prefix]
    refine ⟨fun h => ?_, fun h => h.trans (List.prefix_append _ _)⟩
    rcases List.prefix_or_prefix_of_prefix h (List.prefix_append _ _) with h | ⟨rest, heq⟩
    · exact h
    · -- the prefix would reach into the brackets
      have hrest : rest <+: writtenExtents type.extents := by
        rw [← heq] at h
        exact (List.prefix_append_right_inj _).mp h
      cases hextents : type.extents with
      | nil =>
        rw [hextents, writtenExtents, List.flatMap_nil, List.prefix_nil] at hrest
        have hbase : "std::".toList = type.base := by rw [← heq, hrest, List.append_nil]
        exact hbase ▸ List.prefix_rfl
      | cons extent extents =>
        rw [hextents, writtenExtents_cons] at hrest
        cases rest with
        | nil =>
          have hbase : "std::".toList = type.base := by rw [← heq, List.append_nil]
          exact hbase ▸ List.prefix_rfl
        | cons c rest =>
          -- no bracket stands in the prefix
          have hc := (List.cons_prefix_cons.mp hrest).1
          have hmem : c ∈ "std::".toList :=
            heq ▸ List.mem_append_right type.base List.mem_cons_self
          rw [hc] at hmem
          exact absurd hmem (by decide)
  unfold stripStd
  rw [hiff]
  split_ifs with h
  · have hlength : "std::".toList.length ≤ type.base.length :=
      (List.isPrefixOf_iff_prefix.mp h).length_le
    exact List.drop_append_of_le_length hlength
  · rfl

theorem stripStd_bracketFree (type : ArrayType) : '[' ∉ stripStd type.base := by
  intro h
  unfold stripStd at h
  split_ifs at h
  · exact type.bracketFree (List.mem_of_mem_drop h)
  · exact type.bracketFree h

/-- The type behind `std::`, trimmed. -/
def ArrayType.trimmedBase (type : ArrayType) : List Char := trimType (stripStd type.base)

def ArrayType.numbers (type : ArrayType) : List Nat := type.extents.map Extent.number

theorem parseFixedArrayType_scalar (type : ArrayType) (h : type.extents = []) :
    parseFixedArrayType type.rawType = .ok ⟨stripStd type.base, [], 0⟩ := by
  have hall : ∀ c ∈ stripStd type.base, decide (c ≠ '[') = true := fun c hc =>
    decide_eq_true fun heq => stripStd_bracketFree type (heq ▸ hc)
  have hsuffix : (stripStd type.base).dropWhile (· ≠ '[') = [] :=
    List.dropWhile_eq_nil_iff.mpr hall
  rw [parseFixedArrayType, ArrayType.rawType, String.toList_ofList, stripStd_written, h,
    writtenExtents, List.flatMap_nil, List.append_nil]
  simp only [hsuffix, List.isEmpty_nil, if_true]

section Array

variable {type : ArrayType}

theorem stripStd_rawType : stripStd type.rawType.toList =
    stripStd type.base ++ writtenExtents type.extents := by
  rw [ArrayType.rawType, String.toList_ofList, stripStd_written]

theorem written_split (h : type.extents ≠ []) :
    (stripStd type.rawType.toList).dropWhile (· ≠ '[') = writtenExtents type.extents ∧
      (stripStd type.rawType.toList).takeWhile (· ≠ '[') = stripStd type.base ∧
      (writtenExtents type.extents).isEmpty = false := by
  obtain ⟨extent, extents, hcons⟩ := List.exists_cons_of_ne_nil h
  have hall : ∀ c ∈ stripStd type.base, decide (c ≠ '[') = true := fun c hc =>
    decide_eq_true fun heq => stripStd_bracketFree type (heq ▸ hc)
  rw [stripStd_rawType, List.dropWhile_append_of_pos hall, List.takeWhile_append_of_pos hall, hcons,
    writtenExtents_cons, List.dropWhile_cons_of_neg (by decide),
    List.takeWhile_cons_of_neg (by decide), List.append_nil, List.isEmpty_cons]
  exact ⟨rfl, rfl, rfl⟩

theorem parseFixedArrayType_error (h : type.extents ≠ []) {e : String}
    (hloop : parseExtents type.rawType (writtenExtents type.extents).length
      (writtenExtents type.extents) [] 1 = .error e) :
    parseFixedArrayType type.rawType = .error e := by
  obtain ⟨hsuffix, _, hsome⟩ := written_split h
  simp only [parseFixedArrayType, hsuffix, hsome, Bool.false_eq_true, if_false, hloop]

theorem parseFixedArrayType_array (h : type.extents ≠ []) {dimensions : List Nat} {length : Nat}
    (hloop : parseExtents type.rawType (writtenExtents type.extents).length
      (writtenExtents type.extents) [] 1 = .ok (some (dimensions, length)))
    (hsome : dimensions.isEmpty = false) :
    parseFixedArrayType type.rawType = .ok ⟨type.trimmedBase, dimensions, length⟩ := by
  obtain ⟨hsuffix, hbase, hwritten⟩ := written_split h
  simp only [parseFixedArrayType, hsuffix, hbase, hwritten, Bool.false_eq_true, if_false, hloop,
    hsome, ArrayType.trimmedBase]

end Array

/-! ### What is read of a written type -/

/-- **Exact parsing**: an error, or just what is written, where that is an array that a
    dimension of 32 bits and a length of 64 bits can hold. -/
def ParsedExactly (type : ArrayType) : Prop :=
  ∀ array, parseFixedArrayType type.rawType = .ok array →
    array = ⟨type.trimmedBase, type.numbers, type.numbers.prod⟩ ∧
      (∀ n ∈ type.numbers, n ≠ 0 ∧ n < 2 ^ 32) ∧ type.numbers.prod < 2 ^ 64

/-- What comes back, and just when. -/
theorem parseFixedArrayType_ok_iff (type : ArrayType) (h : type.extents ≠ [])
    {array : FixedArrayTypeInfo} :
    parseFixedArrayType type.rawType = .ok array ↔
      (∀ n ∈ type.numbers, n < 2 ^ 64 ∧ n % 2 ^ 32 ≠ 0) ∧
      (type.numbers.map (· % 2 ^ 32)).prod < 2 ^ 64 ∧
      array = ⟨type.trimmedBase, type.numbers.map (· % 2 ^ 32),
        (type.numbers.map (· % 2 ^ 32)).prod⟩ := by
  have hdimensions : type.extents.map Extent.dimension = type.numbers.map (· % 2 ^ 32) := by
    rw [ArrayType.numbers, List.map_map]
    rfl
  have hloop := fun result => @parseExtents_ok_iff type.rawType type.extents _ [] _ result
    (length_le_writtenExtents type.extents)
    (show 1 < 2 ^ 64 by decide)
  simp only [hdimensions, Nat.one_mul, List.nil_append] at hloop
  have hsome : (type.numbers.map (· % 2 ^ 32)).isEmpty = false := by
    rw [List.isEmpty_eq_false_iff, ArrayType.numbers, List.map_map]
    exact fun hnil => h (List.map_eq_nil_iff.mp hnil)
  have hnumbers : (∀ n ∈ type.numbers, n < 2 ^ 64 ∧ n % 2 ^ 32 ≠ 0) ↔
      ∀ extent ∈ type.extents, extent.number < 2 ^ 64 ∧ extent.dimension ≠ 0 :=
    List.forall_mem_map
  rw [hnumbers]
  cases hresult : parseExtents type.rawType (writtenExtents type.extents).length
      (writtenExtents type.extents) [] 1 with
  | error e =>
    rw [parseFixedArrayType_error h hresult]
    refine ⟨fun hne => (nomatch hne), fun ⟨hsmall, hfits, _⟩ => ?_⟩
    rw [(hloop _).mpr ⟨hsmall, hfits, rfl⟩] at hresult
    exact nomatch hresult
  | ok result =>
    obtain ⟨hsmall, hfits, rfl⟩ := (hloop result).mp hresult
    rw [parseFixedArrayType_array h hresult hsome, Except.ok.injEq]
    exact ⟨fun heq => ⟨hsmall, hfits, heq.symm⟩, fun ⟨_, _, heq⟩ => heq.symm⟩

theorem map_mod_eq_self_iff {numbers : List Nat} {m : Nat} (hm : 0 < m) :
    numbers.map (· % m) = numbers ↔ ∀ n ∈ numbers, n < m := by
  conv_lhs => rhs; rw [← List.map_id numbers]
  rw [List.map_inj_left]
  exact forall₂_congr fun n _ =>
    ⟨fun h => (show n % m = n from h) ▸ Nat.mod_lt n hm, fun h => Nat.mod_eq_of_lt h⟩

/-- **Parsing is exact** just when there is an extent, and the numbers either fit 32 bits or
    are refused for another reason. -/
theorem parsedExactly_iff (type : ArrayType) :
    ParsedExactly type ↔ type.extents ≠ [] ∧
      ((∃ n ∈ type.numbers, 2 ^ 64 ≤ n ∨ n % 2 ^ 32 = 0) ∨
        2 ^ 64 ≤ (type.numbers.map (· % 2 ^ 32)).prod ∨ ∀ n ∈ type.numbers, n < 2 ^ 32) := by
  by_cases hnil : type.extents = []
  · refine ⟨fun h => ?_, fun h => absurd hnil h.1⟩
    have harray := (h _ (parseFixedArrayType_scalar type hnil)).1
    rw [ArrayType.numbers, hnil, List.map_nil, List.prod_nil, FixedArrayTypeInfo.mk.injEq]
      at harray
    exact absurd harray.2.2 (by decide)
  · rw [and_iff_right hnil]
    constructor
    · intro h
      by_contra hcondition
      simp only [not_or, not_exists, not_and, Nat.not_le] at hcondition
      obtain ⟨hsmall, hfits, hlarge⟩ := hcondition
      have harray := (h _ ((parseFixedArrayType_ok_iff type hnil).mpr
        ⟨hsmall, hfits, rfl⟩)).1
      rw [FixedArrayTypeInfo.mk.injEq] at harray
      exact hlarge ((map_mod_eq_self_iff (by decide)).mp harray.2.1)
    · intro hcondition array harray
      obtain ⟨hsmall, hfits, rfl⟩ := (parseFixedArrayType_ok_iff type hnil).mp harray
      rcases hcondition with ⟨n, hn, hrefused⟩ | hover | hlt
      · rcases hrefused with hbig | hzero
        · exact absurd (hsmall n hn).1 (Nat.not_lt.mpr hbig)
        · exact absurd hzero (hsmall n hn).2
      · exact absurd hfits (Nat.not_lt.mpr hover)
      · have hmod := (map_mod_eq_self_iff (by decide)).mpr hlt
        rw [hmod] at hfits ⊢
        refine ⟨rfl, fun n hn => ⟨?_, hlt n hn⟩, hfits⟩
        rintro rfl
        exact (hsmall 0 hn).2 (Nat.zero_mod _)

/-- `int[4294967297]`. -/
def wrappedType : ArrayType where
  base := "int".toList
  bracketFree := by decide
  extents := [⟨"4294967297".toList, by decide, List.all_eq_true.mp (by decide)⟩]

/-- An array of 2^32 + 1 elements is read as one of a single element. -/
theorem parse_wraps_extent : ¬ ParsedExactly wrappedType := by
  intro h
  have harray := h _ ((parseFixedArrayType_ok_iff wrappedType (by decide)).mpr
    ⟨by decide +kernel, by decide +kernel, rfl⟩)
  exact absurd (harray.2.1 4294967297 (by decide +kernel)).2 (by decide)

end RootLake.SemanticTypes

import RootLake.Reader.PagedTraversal
import RootLake.Serialized.NestedFixed

/-!
# The coordinates of a fixed array in every decoder

The position of a number in a fixed array becomes a tuple of coordinates in four places: in
the codec of serialized entries, in the reader of leaf branches, in the decoder of nested
fixed members and in the reader of memory offsets. A cursor goes the other way. The tuples
are mixed-radix digits: they grow with the position, and the cursor finds the position again.
The decoder of nested fixed members alone leaves them out where the array has one number.
-/

namespace RootLake.Serialized

/-- The leaf reader's copy of the loop. -/
def appendFixedCoordinates (flat : Nat) (dimensions : List Nat) (indices : List Int) :
    List Int :=
  if dimensions.isEmpty then indices ++ [toInt32 flat]
  else indices ++ (coordinates dimensions flat).1

/-! ### Digits and positions -/

theorem mixedRadix_forall₂ {dimensions : List Nat} (hpositive : ∀ d ∈ dimensions, 0 < d)
    (n : Nat) : List.Forall₂ (fun d digit => digit < d) dimensions (mixedRadix dimensions n) := by
  induction dimensions with
  | nil => exact .nil
  | cons d dimensions ih =>
    exact .cons (Nat.mod_lt _ (hpositive d List.mem_cons_self))
      (ih fun e he => hpositive e (List.mem_cons_of_mem _ he))

/-- A larger remainder has the larger digits. -/
theorem mixedRadix_lex {dimensions : List Nat} (hpositive : ∀ d ∈ dimensions, 0 < d)
    {a b : Nat} (h : a % dimensions.prod < b % dimensions.prod) :
    List.Lex (· < ·) (mixedRadix dimensions a) (mixedRadix dimensions b) := by
  induction dimensions with
  | nil => simp [Nat.mod_one] at h
  | cons d dimensions ih =>
    have htail : ∀ e ∈ dimensions, 0 < e := fun e he => hpositive e (List.mem_cons_of_mem _ he)
    have hprod : 0 < dimensions.prod := List.prod_pos htail
    rw [List.prod_cons, Nat.mul_comm, Nat.mod_mul, Nat.mod_mul] at h
    have ha := Nat.mod_lt a hprod
    have hb := Nat.mod_lt b hprod
    rcases lt_trichotomy (a / dimensions.prod % d) (b / dimensions.prod % d) with hlt | heq | hgt
    · exact .rel hlt
    · rw [mixedRadix, mixedRadix, heq]
      rw [heq] at h
      exact .cons (ih htail (by omega))
    · have hstep := Nat.mul_le_mul_left dimensions.prod (Nat.succ_le_of_lt hgt)
      rw [Nat.mul_succ] at hstep
      omega

/-- The digits of a remainder come back to it. -/
theorem flatPosition_mixedRadix {dimensions : List Nat} (hpositive : ∀ d ∈ dimensions, 0 < d)
    (n : Nat) :
    flatPosition dimensions ((mixedRadix dimensions n).map Nat.cast) = n % dimensions.prod := by
  induction dimensions with
  | nil => simp [flatPosition, Nat.mod_one]
  | cons d dimensions ih =>
    rw [mixedRadix, List.map_cons, flatPosition, Int.toNat_natCast,
      ih fun e he => hpositive e (List.mem_cons_of_mem _ he), List.prod_cons, Nat.mul_comm d,
      Nat.mod_mul, Nat.mul_comm dimensions.prod, Nat.add_comm]

/-! ### The tuple of a position -/

section Tuples

variable {dimensions : List Nat} {flat : Nat}
  (hextents : ∀ d ∈ dimensions, 0 < d ∧ d < 2 ^ 31)

include hextents

theorem coordinates_digits :
    (coordinates dimensions flat).1 = (mixedRadix dimensions flat).map Nat.cast := by
  rw [coordinates_eq]
  refine List.map_congr_left fun digit hdigit => toInt32_of_le ?_
  obtain ⟨d, hd, hlt⟩ := mixedRadix_lt (fun d hd => (hextents d hd).1) flat digit hdigit
  have hsmall := (hextents d hd).2
  have hmax : int32Max = 2 ^ 31 - 1 := rfl
  omega

theorem offset_coordinates :
    RootLake.arrayCoordinates dimensions flat =
      .ok ((mixedRadix dimensions flat).map Nat.cast, flat / dimensions.prod) := by
  induction dimensions with
  | nil => simp [RootLake.arrayCoordinates, mixedRadix]
  | cons d dimensions ih =>
    obtain ⟨hpos, hsmall⟩ := hextents d List.mem_cons_self
    have hdigit := Nat.mod_lt (flat / dimensions.prod) hpos
    have hmax : RootLake.int32Max = 2 ^ 31 - 1 := rfl
    rw [RootLake.arrayCoordinates, ih fun e he => hextents e (List.mem_cons_of_mem _ he)]
    simp only [bind, Except.bind]
    rw [if_neg (by omega), if_neg (by omega), mixedRadix, List.map_cons, List.prod_cons,
      Nat.mul_comm d, Nat.div_div_eq_div_mul]

/-- The codec's tuple, from the digits. -/
theorem arrayCoordinates_digits (hdimensions : dimensions ≠ []) :
    arrayCoordinates flat dimensions = (mixedRadix dimensions flat).map Nat.cast := by
  rw [arrayCoordinates, if_neg (by simpa using hdimensions)]
  exact coordinates_digits hextents

theorem arrayCoordinates_inside (hdimensions : dimensions ≠ []) :
    List.Forall₂ (fun (d : Nat) (c : Int) => 0 ≤ c ∧ c.toNat < d) dimensions
      (arrayCoordinates flat dimensions) := by
  rw [arrayCoordinates_digits hextents hdimensions, List.forall₂_map_right_iff]
  refine (mixedRadix_forall₂ (fun d hd => (hextents d hd).1) flat).imp fun d digit hlt => ?_
  exact ⟨Int.natCast_nonneg digit, by rwa [Int.toNat_natCast]⟩

variable (hinside : flat < dimensions.prod)

include hinside

theorem pushArrayCoordinates_eq (indices : List Int) :
    RootLake.pushArrayCoordinates flat dimensions indices =
      .ok (indices ++ arrayCoordinates flat dimensions) := by
  rw [RootLake.pushArrayCoordinates]
  by_cases hdimensions : dimensions = []
  · subst hdimensions
    obtain rfl : flat = 0 := by simpa using hinside
    rfl
  · rw [if_neg hdimensions, offset_coordinates hextents,
      arrayCoordinates_digits hextents hdimensions]
    rfl

theorem flatPosition_arrayCoordinates (hdimensions : dimensions ≠ []) :
    flatPosition dimensions (arrayCoordinates flat dimensions) = flat := by
  rw [arrayCoordinates_digits hextents hdimensions,
    flatPosition_mixedRadix fun d hd => (hextents d hd).1]
  exact Nat.mod_eq_of_lt hinside

end Tuples

theorem lex_map_cast {digits others : List Nat} (h : List.Lex (· < ·) digits others) :
    List.Lex (· < ·) (digits.map (Nat.cast : Nat → Int)) (others.map Nat.cast) := by
  induction h with
  | nil => exact .nil
  | cons _ ih => exact .cons ih
  | rel hlt => exact .rel (Int.ofNat_lt.mpr hlt)

theorem arrayCoordinates_lex {dimensions : List Nat}
    (hextents : ∀ d ∈ dimensions, 0 < d ∧ d < 2 ^ 31) {flat other : Nat} (hlt : flat < other)
    (hinside : other < dimensions.prod) :
    List.Lex (· < ·) (arrayCoordinates flat dimensions) (arrayCoordinates other dimensions) := by
  have hdimensions : dimensions ≠ [] := by
    rintro rfl
    simp at hinside
    omega
  rw [arrayCoordinates_digits hextents hdimensions,
    arrayCoordinates_digits hextents hdimensions]
  apply lex_map_cast
  apply mixedRadix_lex fun d hd => (hextents d hd).1
  rwa [Nat.mod_eq_of_lt (hlt.trans hinside), Nat.mod_eq_of_lt hinside]

/-! ### Nested members -/

section Nested

variable {bytes : List UInt8} {plan : NestedFixedPlan} {layout : SerializedEntryLayout}
  {kind : SerializedPrimitiveKind}

theorem nestedIndices_eq (hextents : ∀ d ∈ plan.arrayDimensions, 0 < d)
    (hlength : plan.fixedArrayLength ≠ 1) (outer inner element : Nat) :
    nestedIndices plan outer inner element =
      .ok (toInt32 outer :: toInt32 inner :: arrayCoordinates element plan.arrayDimensions) := by
  rw [nestedIndices, if_neg hlength, arrayCoordinates]
  by_cases hempty : plan.arrayDimensions.isEmpty
  · rw [if_pos hempty, if_pos hempty]
  · rw [if_neg hempty, if_neg hempty,
      if_neg fun hzero => (Nat.lt_irrefl 0 (hextents 0 hzero))]

theorem appendElements_indices {payloadOffset outer inner : Nat} {tuple : Nat → List Int}
    {elements : List Nat}
    (htuple : ∀ element ∈ elements, nestedIndices plan outer inner element = .ok (tuple element))
    {values : List RootPrimitiveValue} {indices : List Int}
    (h : (appendElements bytes plan layout kind payloadOffset outer inner elements).result =
      .ok (values, indices)) :
    indices = elements.flatMap tuple := by
  induction elements generalizing values indices with
  | nil => exact (Prod.mk.inj (Except.ok.inj h)).2.symm
  | cons element elements ih =>
    rw [appendElements] at h
    obtain ⟨value, pushed, moreValues, more, hfirst, hrest, -, rfl⟩ := Decoded.andThen_ok h
    rw [List.flatMap_cons, ← ih (fun e he => htuple e (List.mem_cons_of_mem _ he)) hrest]
    dsimp only at hfirst
    rw [htuple element List.mem_cons_self] at hfirst
    cases hvalue : readNestedValue bytes kind (payloadOffset + element * layout.valueBytes) with
    | error e =>
      rw [hvalue] at hfirst
      contradiction
    | ok decoded =>
      rw [hvalue] at hfirst
      rw [(Prod.mk.inj (Except.ok.inj hfirst)).2]

end Nested

/-! ### One tuple for all -/

/-- A position in an array of these extents that a 64-bit index holds. -/
def Position (dimensions : List Nat) (flat : Nat) : Prop :=
  flat < dimensions.prod ∧ flat < 2 ^ 64

/-- Every decoder pushes the codec's tuple for a position, the tuples lie inside of the extents
    and grow with the positions, and a cursor finds the position of its tuple again. -/
structure CoordinatesShared (dimensions : List Nat) : Prop where
  offsetReader : ∀ flat, Position dimensions flat → ∀ indices,
    RootLake.pushArrayCoordinates flat dimensions indices =
      .ok (indices ++ arrayCoordinates flat dimensions)
  leafReader : ∀ flat, Position dimensions flat → ∀ indices,
    appendFixedCoordinates flat dimensions indices = indices ++ arrayCoordinates flat dimensions
  nestedReader : ∀ plan : NestedFixedPlan, plan.arrayDimensions = dimensions →
    plan.fixedArrayLength = dimensions.prod →
    ∀ bytes layout kind maxValuesPerEntry frameEnd payloadOffset outer inner total values indices,
      (appendNestedFixedValues bytes plan layout kind maxValuesPerEntry frameEnd payloadOffset
        outer inner total).result = .ok (values, indices) →
      indices = (List.range dimensions.prod).flatMap fun flat =>
        (outer : Int) :: (inner : Int) :: arrayCoordinates flat dimensions
  inside : dimensions ≠ [] → ∀ flat, Position dimensions flat →
    List.Forall₂ (fun (d : Nat) (c : Int) => 0 ≤ c ∧ c.toNat < d) dimensions
      (arrayCoordinates flat dimensions)
  injective : ∀ flat other, Position dimensions flat → Position dimensions other →
    arrayCoordinates flat dimensions = arrayCoordinates other dimensions → flat = other
  increasing : ∀ flat other, Position dimensions flat → Position dimensions other → flat < other →
    List.Lex (· < ·) (arrayCoordinates flat dimensions) (arrayCoordinates other dimensions)
  restored : ∀ flat, Position dimensions flat → ∀ (level : PathLevel) (array : FixedArray),
    level.fixedArray = some array → array.dimensions = dimensions →
    ∀ (page : CursorPage) (indices more : List Int), page.skipPrevious = true →
      cursorStartIndex (indices ++ arrayCoordinates flat dimensions ++ more) page level indices =
        .ok flat

section Shared

variable {dimensions : List Nat} (hextents : ∀ d ∈ dimensions, 0 < d ∧ d < 2 ^ 31)

include hextents

theorem arrayCoordinates_injective {flat other : Nat} (hflat : flat < dimensions.prod)
    (hother : other < dimensions.prod)
    (h : arrayCoordinates flat dimensions = arrayCoordinates other dimensions) : flat = other := by
  rcases lt_trichotomy flat other with hlt | heq | hgt
  · have hlex := arrayCoordinates_lex hextents hlt hother
    rw [h] at hlex
    exact absurd hlex (List.lt_irrefl _)
  · exact heq
  · have hlex := arrayCoordinates_lex hextents hgt hflat
    rw [h] at hlex
    exact absurd hlex (List.lt_irrefl _)

theorem nestedReader_indices (hlength : dimensions.prod ≠ 1) {plan : NestedFixedPlan}
    (hdimensions : plan.arrayDimensions = dimensions)
    (hprod : plan.fixedArrayLength = dimensions.prod) {bytes : List UInt8}
    {layout : SerializedEntryLayout} {kind : SerializedPrimitiveKind}
    {maxValuesPerEntry frameEnd payloadOffset outer inner total : Nat}
    {values : List RootPrimitiveValue} {indices : List Int}
    (h : (appendNestedFixedValues bytes plan layout kind maxValuesPerEntry frameEnd payloadOffset
      outer inner total).result = .ok (values, indices)) :
    indices = (List.range dimensions.prod).flatMap fun flat =>
      (outer : Int) :: (inner : Int) :: arrayCoordinates flat dimensions := by
  subst hdimensions
  rw [appendNestedFixedValues] at h
  split_ifs at h with hguard
  · contradiction
  · simp only [Bool.or_eq_true, decide_eq_true_eq, not_or, not_lt] at hguard
    obtain ⟨⟨-, houter⟩, hinner⟩ := hguard
    rw [hprod] at h
    refine appendElements_indices (fun element _ => ?_) h
    rw [nestedIndices_eq (fun d hd => (hextents d hd).1) (hprod ▸ hlength),
      toInt32_of_le houter, toInt32_of_le hinner]

theorem cursorStartIndex_restores {flat : Nat} (hposition : Position dimensions flat)
    {level : PathLevel} {array : FixedArray} (ha : level.fixedArray = some array)
    (hdimensions : array.dimensions = dimensions) {page : CursorPage}
    (hskip : page.skipPrevious = true) (indices more : List Int) :
    cursorStartIndex (indices ++ arrayCoordinates flat dimensions ++ more) page level indices =
      .ok flat := by
  subst hdimensions
  have hflat := flatPosition_arrayCoordinates hextents hposition.1 array.nonempty
  rw [cursorStartIndex_flat hskip ha (arrayCoordinates_inside hextents array.nonempty)
    (hflat.symm ▸ hposition.2) rfl, hflat]

theorem coordinatesShared (hlength : dimensions.prod ≠ 1) : CoordinatesShared dimensions where
  offsetReader _ hflat := pushArrayCoordinates_eq hextents hflat.1
  leafReader flat _ indices := by
    rw [appendFixedCoordinates, arrayCoordinates]
    split_ifs <;> rfl
  nestedReader _ hdimensions hprod _ _ _ _ _ _ _ _ _ _ _ h :=
    nestedReader_indices hextents hlength hdimensions hprod h
  inside hdimensions _ _ := arrayCoordinates_inside hextents hdimensions
  injective _ _ hflat hother := arrayCoordinates_injective hextents hflat.1 hother.1
  increasing _ _ _ hother hlt := arrayCoordinates_lex hextents hlt hother.1
  restored _ hflat _ _ ha hdimensions _ indices more hskip :=
    cursorStartIndex_restores hextents hflat ha hdimensions hskip indices more

end Shared

/-! ### Arrays of one number -/

/-- A byte for each number, in an array of these extents. -/
def bytePlan (dimensions : List Nat) : NestedFixedPlan where
  projection := .selected .nestedFixedMember
  nestedContainerClass := some 1
  nestedElementClass := some ⟨1, fun _ => none⟩
  nestedMemberName := "fFlag"
  valueType := "UChar_t"
  valueBytes := 1
  fixedArrayLength := dimensions.prod
  arrayDimensions := dimensions
  indexDepth := 2 + dimensions.length

def byteLayout (dimensions : List Nat) : SerializedEntryLayout where
  valueType := "UChar_t"
  primitiveKind := .uint8
  valueBytes := 1
  fixedArrayLength := dimensions.prod
  arrayDimensions := dimensions
  indexDepth := 2 + dimensions.length

theorem bytePlan_reads_one {dimensions : List Nat} (hlength : dimensions.prod = 1) :
    (appendNestedFixedValues [7] (bytePlan dimensions) (byteLayout dimensions) .uint8 1 1 0 0 0
      0).result = .ok ([.unsigned 7], [0, 0]) := by
  have hplan : (bytePlan dimensions).fixedArrayLength = 1 := hlength
  have hindices : nestedIndices (bytePlan dimensions) 0 0 0 = .ok [0, 0] := if_pos hplan
  rw [appendNestedFixedValues, hplan, if_neg (by simp [byteLayout, uint64Max]), List.range_one,
    appendElements, hindices]
  rfl

/-- The decoder of nested members pushes no coordinate in an array of one number. -/
theorem not_coordinatesShared {dimensions : List Nat} (hlength : dimensions.prod = 1) :
    ¬ CoordinatesShared dimensions := by
  intro hshared
  have hindices := hshared.nestedReader (bytePlan dimensions) rfl rfl _ _ _ _ _ _ _ _ _ _ _
    (bytePlan_reads_one hlength)
  rw [hlength, List.range_one, List.flatMap_singleton] at hindices
  have hlengths := congrArg List.length hindices
  rw [arrayCoordinates] at hlengths
  split_ifs at hlengths with hempty
  · simp at hlengths
  · rw [List.isEmpty_iff] at hempty
    simp [length_coordinates, hempty] at hlengths

/-- The decoders share the tuples of exactly the arrays that have not one number. -/
theorem coordinatesShared_iff {dimensions : List Nat}
    (hextents : ∀ d ∈ dimensions, 0 < d ∧ d < 2 ^ 31) :
    CoordinatesShared dimensions ↔ dimensions.prod ≠ 1 :=
  ⟨fun hshared hlength => not_coordinatesShared hlength hshared, coordinatesShared hextents⟩

theorem matrix_coordinates_shared : CoordinatesShared [2, 3] :=
  (coordinatesShared_iff (by decide)).2 (by decide)

theorem single_coordinate_missing : ¬ CoordinatesShared [1] :=
  not_coordinatesShared rfl

end RootLake.Serialized

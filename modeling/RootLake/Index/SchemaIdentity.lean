import RootLake.Index.AccessPlan
import RootLake.Reader.LogicalPath
import RootLake.Reader.ResolvedPath

/-!
# The identity of a schema

`SchemaFingerprint` hashes the fields of the levels one behind the other. Behind a type stand
eight bytes of an offset, of which the upper four are zero, so no byte string belongs to two
lists of levels that differ in a field that is hashed (`hashedFields_of_bytes`). The element
size is compared when a plan is validated and is not hashed: two layouts share their
identifiers when they differ in nothing else (`identifiesPlan_iff`).
-/

namespace RootLake.Index

open Bytes SemanticTypes Text

/-! ### What is hashed -/

def numberBytes (width : Nat) (value : Int) : List UInt8 :=
  toLittleEndian width (value % 256 ^ width).toNat

def arrayDimensions (level : PathLevel) : List Nat :=
  (level.fixedArray.map fun array => array.dimensions).getD []

def fixedArrayLength (level : PathLevel) : Nat :=
  (level.fixedArray.map fun array => array.length).getD 0

/-- What follows the type of a level. -/
def layoutBytes (level : PathLevel) : List UInt8 :=
  numberBytes 8 level.offsetInParent ++ (numberBytes 1 (levelFlags level) ++
    (numberBytes 8 (fixedArrayLength level) ++
      (arrayDimensions level).flatMap fun dimension : Nat => numberBytes 4 dimension))

def levelBytes (level : PathLevel) : List UInt8 :=
  bytes level.name ++ (bytes level.type ++ layoutBytes level)

/-- The bytes that `SchemaFingerprint` hashes. -/
def fingerprintBytes (rootClass : String) (levels : List PathLevel) : List UInt8 :=
  bytes rootClass ++ levels.flatMap levelBytes

/-- The hash of a text goes on where another one stopped. -/
theorem fnv1a64_append (front rest : List UInt8) (seed : UInt64) :
    fnv1a64 (front ++ rest) seed = fnv1a64 rest (fnv1a64 front seed) := by
  rw [fnv1a64, fnv1a64, fnv1a64, List.foldl_append]

theorem foldl_fnv1a64 {α : Type} (encode : α → List UInt8) (parts : List α) (seed : UInt64) :
    parts.foldl (fun hash part => fnv1a64 (encode part) hash) seed =
      fnv1a64 (parts.flatMap encode) seed := by
  induction parts generalizing seed with
  | nil => rfl
  | cons part parts ih => rw [List.foldl_cons, ih, List.flatMap_cons, fnv1a64_append]

theorem fingerprintLevel_eq (hash : UInt64) (level : PathLevel) :
    fingerprintLevel hash level = fnv1a64 (levelBytes level) hash := by
  have hdimensions := foldl_fnv1a64 (fun dimension : Nat => numberBytes 4 dimension)
    (arrayDimensions level)
  rw [levelBytes, layoutBytes, fnv1a64_append, fnv1a64_append, fnv1a64_append, fnv1a64_append,
    fnv1a64_append, ← hdimensions, fingerprintLevel, arrayDimensions, fixedArrayLength]
  cases level.fixedArray with
  | none => rfl
  | some array =>
    have hnumbers : (do let dimension ← array.dimensions; pure (dimension : Int)) =
        array.dimensions.map fun dimension : Nat => (dimension : Int) :=
      (List.map_eq_flatMap (f := fun dimension : Nat => (dimension : Int))).symm
    simp only [Option.map_some, Option.getD_some]
    rw [hnumbers, List.foldl_map]
    rfl

/-- `SchemaFingerprint` is the hash of the bytes it hashes. -/
theorem schemaFingerprint_eq (rootClass : String) (levels : List PathLevel) :
    schemaFingerprint rootClass levels =
      hex64 (fnv1a64 (fingerprintBytes rootClass levels) fnvSeed) := by
  have hlevels : fingerprintLevel = fun hash level => fnv1a64 (levelBytes level) hash :=
    funext fun hash => funext fun level => fingerprintLevel_eq hash level
  rw [schemaFingerprint, hlevels, foldl_fnv1a64, fingerprintBytes, fnv1a64_append]
  rfl

theorem hex64_inj {value other : UInt64} : hex64 value = hex64 other ↔ value = other := by
  refine ⟨fun h => ?_, congrArg hex64⟩
  have hdigits : ∀ a < 16, ∀ b < 16, Nat.digitChar a = Nat.digitChar b → a = b := by decide
  have hchars := String.ofList_injective h
  have hdigit (i : Nat) (hi : i < 16) :
      value.toNat / 16 ^ i % 16 = other.toNat / 16 ^ i % 16 := by
    refine hdigits _ (Nat.mod_lt _ (by decide)) _ (Nat.mod_lt _ (by decide)) ?_
    exact List.map_inj_left.mp hchars i (List.mem_reverse.mpr (List.mem_range.mpr hi))
  have hmod (k : Nat) (hk : k ≤ 16) : value.toNat % 16 ^ k = other.toNat % 16 ^ k := by
    induction k with
    | zero => rw [Nat.pow_zero, Nat.mod_one, Nat.mod_one]
    | succ k ih =>
      rw [Nat.pow_succ, Nat.mod_mul, Nat.mod_mul, ih (by omega), hdigit k (by omega)]
  have h16 := hmod 16 (Nat.le_refl 16)
  have hvalue := value.toNat_lt
  have hother := other.toNat_lt
  rw [Nat.mod_eq_of_lt (by omega), Nat.mod_eq_of_lt (by omega)] at h16
  exact UInt64.toNat_inj.mp h16

/-! ### Where a type ends -/

theorem length_numberBytes (width : Nat) (value : Int) :
    (numberBytes width value).length = width :=
  length_toLittleEndian _ _

theorem numberBytes_inj {width : Nat} {value other : Int}
    (hvalue : 0 ≤ value ∧ value < 256 ^ width) (hother : 0 ≤ other ∧ other < 256 ^ width)
    (h : numberBytes width value = numberBytes width other) : value = other := by
  rw [numberBytes, numberBytes, Int.emod_eq_of_lt hvalue.1 hvalue.2,
    Int.emod_eq_of_lt hother.1 hother.2] at h
  have hnat (number : Int) (hnumber : 0 ≤ number ∧ number < 256 ^ width) :
      number.toNat < 256 ^ width := by
    rw [Int.toNat_lt hnumber.1]
    exact_mod_cast hnumber.2
  have hsame := congrArg ofLittleEndian h
  rw [ofLittleEndian_toLittleEndian (hnat value hvalue),
    ofLittleEndian_toLittleEndian (hnat other hother)] at hsame
  rw [← Int.toNat_of_nonneg hvalue.1, hsame, Int.toNat_of_nonneg hother.1]

theorem levelFlags_lt (level : PathLevel) : levelFlags level < 32 := by
  unfold levelFlags
  split_ifs <;> omega

theorem numberBytes_flags (level : PathLevel) :
    numberBytes 1 (levelFlags level) = [UInt8.ofNat (levelFlags level)] := by
  have hlt := levelFlags_lt level
  rw [numberBytes, Int.emod_eq_of_lt (by omega) (by omega), Int.toNat_natCast]
  rfl

/-- The upper half of an offset is zero. -/
theorem offset_upper {offset : Int} (h : 0 ≤ offset ∧ offset < 2 ^ 31) {i : Nat}
    (hi : 4 ≤ i ∧ i < 8) : (numberBytes 8 offset)[i]? = some 0 := by
  obtain ⟨n, rfl⟩ := Int.eq_ofNat_of_zero_le h.1
  have hn : n < 2 ^ 31 := by omega
  rw [numberBytes, Int.emod_eq_of_lt h.1 (by omega), Int.toNat_natCast]
  have hzero (k : Nat) (hk : 2 ^ 31 ≤ k) : n / k = 0 := Nat.div_eq_of_lt (by omega)
  obtain rfl | rfl | rfl | rfl : i = 4 ∨ i = 5 ∨ i = 6 ∨ i = 7 := by omega
  all_goals
    simp only [toLittleEndian, List.getElem?_cons_succ, List.getElem?_cons_zero, Nat.div_div_eq_div_mul]
    rw [hzero _ (by decide)]
    rfl

/-- Without flags a level has no extents. -/
theorem layoutBytes_plain {level : PathLevel} (h : levelFlags level = 0) :
    layoutBytes level = numberBytes 8 level.offsetInParent ++ List.replicate 9 0 := by
  have hnone : level.fixedArray = none := by
    cases harray : level.fixedArray with
    | none => rfl
    | some array =>
      have hflags : 16 ≤ levelFlags level := by
        rw [levelFlags, harray, Option.isSome_some, if_pos rfl]
        exact Nat.le_add_left 16 _
      omega
  rw [layoutBytes, arrayDimensions, fixedArrayLength, hnone, h]
  rfl

/-- What may stand behind a level: nothing, or the name of the next one. -/
def Follows (rest : List UInt8) : Prop := ∀ byte, rest.head? = some byte → 32 ≤ byte.toNat

section Layout

variable {level other : PathLevel} {rest otherRest : List UInt8}

theorem layout_upper (h : 0 ≤ level.offsetInParent ∧ level.offsetInParent < 2 ^ 31) {i : Nat}
    (hi : 4 ≤ i ∧ i < 8) : (layoutBytes level ++ rest)[i]? = some 0 := by
  have hlength := length_numberBytes 8 level.offsetInParent
  rw [layoutBytes, List.append_assoc, List.getElem?_append_left (by omega)]
  exact offset_upper h hi

theorem layout_flags :
    (layoutBytes level ++ rest)[8]? = some (UInt8.ofNat (levelFlags level)) := by
  have hlength := length_numberBytes 8 level.offsetInParent
  rw [layoutBytes, List.append_assoc, List.getElem?_append_right (by omega), hlength,
    numberBytes_flags]
  rfl

theorem flags_zero (h : UInt8.ofNat (levelFlags level) = 0) : levelFlags level = 0 := by
  have hnat := congrArg UInt8.toNat h
  rw [UInt8.toNat_ofNat'] at hnat
  have hlt := levelFlags_lt level
  rwa [Nat.mod_eq_of_lt (by omega)] at hnat

theorem layout_plain (h : 0 ≤ level.offsetInParent ∧ level.offsetInParent < 2 ^ 31)
    (hflags : levelFlags level = 0) {i : Nat} (hi : 4 ≤ i ∧ i < 17) :
    (layoutBytes level ++ rest)[i]? = some 0 := by
  by_cases hoffset : i < 8
  · exact layout_upper h ⟨hi.1, hoffset⟩
  · have hlength := length_numberBytes 8 level.offsetInParent
    rw [layoutBytes_plain hflags, List.append_assoc, List.getElem?_append_right (by omega),
      hlength, List.getElem?_append_left (by rw [List.length_replicate]; omega),
      List.getElem?_replicate_of_lt (by omega)]

theorem layout_rest (hflags : levelFlags level = 0) :
    (layoutBytes level ++ rest)[17]? = rest.head? := by
  have hlength := length_numberBytes 8 level.offsetInParent
  rw [layoutBytes_plain hflags, List.getElem?_append_right (by simp; omega),
    List.head?_eq_getElem?]
  simp [hlength]

/-- The layout of one level does not begin inside of the type of another. A type that reached
    into the offset would end before its zeros, and the flags, the length and the name behind
    it would be zeros too. -/
theorem no_overlap (hlevel : 0 ≤ level.offsetInParent ∧ level.offsetInParent < 2 ^ 31)
    (hother : 0 ≤ other.offsetInParent ∧ other.offsetInParent < 2 ^ 31)
    (hrest : Follows rest) {overlap : List UInt8} (htext : ∀ byte ∈ overlap, 32 ≤ byte.toNat)
    (h : layoutBytes level ++ rest = overlap ++ (layoutBytes other ++ otherRest)) :
    overlap = [] := by
  by_contra hne
  have hpos := List.length_pos_of_ne_nil hne
  have hbehind (i : Nat) (hi : overlap.length ≤ i) : (layoutBytes level ++ rest)[i]? =
      (layoutBytes other ++ otherRest)[i - overlap.length]? := by
    rw [h, List.getElem?_append_right hi]
  have hshort : overlap.length ≤ 4 := by
    by_contra hlong
    have hupper : (layoutBytes level ++ rest)[4]? = some 0 := layout_upper hlevel (by omega)
    rw [h, List.getElem?_append_left (by omega)] at hupper
    exact absurd (htext 0 (List.mem_of_getElem? hupper)) (by decide)
  have hflags : levelFlags level = 0 := by
    have hzero := hbehind 8 (by omega)
    rw [layout_flags, layout_upper hother (by omega)] at hzero
    exact flags_zero (Option.some.inj hzero)
  have hotherFlags : levelFlags other = 0 := by
    have hzero := hbehind (8 + overlap.length) (by omega)
    rw [layout_plain hlevel hflags (by omega), Nat.add_sub_cancel, layout_flags] at hzero
    exact flags_zero (Option.some.inj hzero).symm
  have hhead := hbehind 17 (by omega)
  rw [layout_rest hflags, layout_plain hother hotherFlags (by omega)] at hhead
  exact absurd (hrest 0 hhead) (by decide)

end Layout

/-! ### Which fields the bytes determine -/

/-- The fields of a level that are hashed. -/
def hashedFields (level : ResolvedLevel) : StoredLevel :=
  { storedLevel level with cumulativeOffset := 0, elementSize := 0 }

theorem flags_inj {a b c d e a' b' c' d' e' : Bool}
    (h : (if a then 1 else 0) + (if b then 2 else 0) + (if c then 4 else 0) +
        (if d then 8 else 0) + (if e then 16 else 0) =
      (if a' then 1 else 0) + (if b' then 2 else 0) + (if c' then 4 else 0) +
        (if d' then 8 else 0) + (if e' then 16 else 0)) :
    a = a' ∧ b = b' ∧ c = c' ∧ d = d' ∧ e = e' := by
  revert a b c d e a' b' c' d' e'
  decide

theorem arrayDimensions_lt (level : PathLevel) :
    ∀ dimension ∈ arrayDimensions level, 0 < dimension ∧ dimension < 2 ^ 32 := by
  intro dimension hdimension
  rw [arrayDimensions] at hdimension
  cases harray : level.fixedArray with
  | none =>
    rw [harray] at hdimension
    exact absurd hdimension List.not_mem_nil
  | some array =>
    rw [harray] at hdimension
    exact array.positive dimension hdimension

/-- Extents with one product have their end where no extent is one: what follows does not begin
    with such an extent. -/
theorem dimensions_inj {dimensions others : List Nat} {rest otherRest : List UInt8}
    (hdimensions : ∀ d ∈ dimensions, 0 < d ∧ d < 2 ^ 32)
    (hothers : ∀ d ∈ others, 0 < d ∧ d < 2 ^ 32) (hprod : dimensions.prod = others.prod)
    (hrest : Follows rest) (hotherRest : Follows otherRest)
    (h : (dimensions.flatMap fun d : Nat => numberBytes 4 d) ++ rest =
      (others.flatMap fun d : Nat => numberBytes 4 d) ++ otherRest) :
    dimensions = others ∧ rest = otherRest := by
  have hone {d : Nat} {dimensions : List Nat} {rest otherRest : List UInt8}
      (hprod : 1 = (d :: dimensions).prod) (hrest : Follows rest)
      (h : rest = ((d :: dimensions).flatMap fun d : Nat => numberBytes 4 d) ++ otherRest) :
      False := by
    have hd : d = 1 := Nat.eq_one_of_mul_eq_one_right (hprod.trans List.prod_cons).symm
    rw [hd] at h
    exact absurd (hrest 1 (by rw [h]; rfl)) (by decide)
  induction dimensions generalizing others with
  | nil =>
    cases others with
    | nil => exact ⟨rfl, h⟩
    | cons d others => exact (hone hprod hrest h).elim
  | cons d dimensions ih =>
    cases others with
    | nil => exact (hone hprod.symm hotherRest h.symm).elim
    | cons e others =>
      rw [List.flatMap_cons, List.flatMap_cons, List.append_assoc, List.append_assoc] at h
      obtain ⟨hhead, htail⟩ := List.append_inj h
        ((length_numberBytes 4 d).trans (length_numberBytes 4 e).symm)
      have hd := hdimensions d List.mem_cons_self
      have he := hothers e List.mem_cons_self
      have heq : d = e := Int.ofNat_inj.mp
        (numberBytes_inj (by omega) (by omega) hhead)
      rw [List.prod_cons, List.prod_cons, heq] at hprod
      obtain ⟨hdims, hrests⟩ := ih (fun f hf => hdimensions f (List.mem_cons_of_mem _ hf))
        (fun f hf => hothers f (List.mem_cons_of_mem _ hf))
        (Nat.eq_of_mul_eq_mul_left he.1 hprod) htail
      exact ⟨by rw [heq, hdims], hrests⟩

section Levels

variable {level other : ResolvedLevel} {rest otherRest : List UInt8}

theorem length_eq_prod (hlevel : level.WellFormed) (harray : level.fixedArray.isSome) :
    fixedArrayLength level.toPathLevel = (arrayDimensions level.toPathLevel).prod := by
  obtain ⟨array, harray⟩ := Option.isSome_iff_exists.mp harray
  rw [fixedArrayLength, arrayDimensions, harray]
  exact hlevel.array_length array harray

theorem fixedArrayLength_lt (level : PathLevel) : fixedArrayLength level < 2 ^ 64 := by
  rw [fixedArrayLength]
  cases level.fixedArray with
  | none => decide
  | some array => exact array.small

theorem layoutBytes_inj (hlevel : level.WellFormed) (hother : other.WellFormed)
    (hrest : Follows rest) (hotherRest : Follows otherRest)
    (h : layoutBytes level.toPathLevel ++ rest = layoutBytes other.toPathLevel ++ otherRest) :
    level.offsetInParent = other.offsetInParent ∧
      levelFlags level.toPathLevel = levelFlags other.toPathLevel ∧
      fixedArrayLength level.toPathLevel = fixedArrayLength other.toPathLevel ∧
      arrayDimensions level.toPathLevel = arrayDimensions other.toPathLevel ∧
      rest = otherRest := by
  simp only [layoutBytes, List.append_assoc] at h
  have hlength (width : Nat) (value number : Int) :
      (numberBytes width value).length = (numberBytes width number).length :=
    (length_numberBytes width value).trans (length_numberBytes width number).symm
  obtain ⟨hoffset, h⟩ := List.append_inj h (hlength _ _ _)
  obtain ⟨hflags, h⟩ := List.append_inj h (hlength _ _ _)
  obtain ⟨harray, h⟩ := List.append_inj h (hlength _ _ _)
  have hlevelOffset := hlevel.offset_inside
  have hotherOffset := hother.offset_inside
  have hlevelFlags := levelFlags_lt level.toPathLevel
  have hotherFlags := levelFlags_lt other.toPathLevel
  have hlevelLength := fixedArrayLength_lt level.toPathLevel
  have hotherLength := fixedArrayLength_lt other.toPathLevel
  have hoffsets := numberBytes_inj (by omega) (by omega) hoffset
  have hflagsEq := Int.ofNat_inj.mp (numberBytes_inj (by omega) (by omega) hflags)
  have hlengths := Int.ofNat_inj.mp (numberBytes_inj (by omega) (by omega) harray)
  have hsome : level.fixedArray.isSome = other.fixedArray.isSome :=
    (flags_inj hflagsEq).2.2.2.2
  have hprod : (arrayDimensions level.toPathLevel).prod =
      (arrayDimensions other.toPathLevel).prod := by
    by_cases hlevelArray : level.fixedArray.isSome
    · rw [← length_eq_prod hlevel hlevelArray, hlengths,
        length_eq_prod hother (hsome ▸ hlevelArray)]
    · have hotherArray : ¬ other.fixedArray.isSome := hsome ▸ hlevelArray
      rw [Option.not_isSome_iff_eq_none] at hlevelArray hotherArray
      rw [arrayDimensions, arrayDimensions, hlevelArray, hotherArray]
  obtain ⟨hdimensions, hrests⟩ := dimensions_inj (arrayDimensions_lt _) (arrayDimensions_lt _)
    hprod hrest hotherRest h
  exact ⟨hoffsets, hflagsEq, hlengths, hdimensions, hrests⟩

/-- The bytes of a level end where its fields end. -/
theorem levelBytes_inj (hlevel : level.WellFormed) (hother : other.WellFormed)
    (hname : level.name = other.name) (hrest : Follows rest) (hotherRest : Follows otherRest)
    (h : levelBytes level.toPathLevel ++ rest = levelBytes other.toPathLevel ++ otherRest) :
    hashedFields level = hashedFields other ∧ rest = otherRest := by
  simp only [levelBytes, hname, List.append_assoc] at h
  have hbehind := List.append_cancel_left h
  have htype : level.type = other.type ∧ layoutBytes level.toPathLevel ++ rest =
      layoutBytes other.toPathLevel ++ otherRest := by
    rcases List.append_eq_append_iff.mp hbehind with ⟨overlap, htype, hlayout⟩ |
      ⟨overlap, htype, hlayout⟩
    · have hnil := no_overlap hlevel.offset_inside hother.offset_inside hrest (fun byte hbyte =>
        printable_bytes hother.type_text byte (htype ▸ List.mem_append_right _ hbyte)) hlayout
      rw [hnil, List.append_nil] at htype
      rw [hnil, List.nil_append] at hlayout
      exact ⟨bytes_inj.mp htype.symm, hlayout⟩
    · have hnil := no_overlap hother.offset_inside hlevel.offset_inside hotherRest
        (fun byte hbyte =>
          printable_bytes hlevel.type_text byte (htype ▸ List.mem_append_right _ hbyte)) hlayout
      rw [hnil, List.append_nil] at htype
      rw [hnil, List.nil_append] at hlayout
      exact ⟨bytes_inj.mp htype, hlayout.symm⟩
  obtain ⟨hoffset, hflags, hlength, hdimensions, hrests⟩ :=
    layoutBytes_inj hlevel hother hrest hotherRest htype.2
  obtain ⟨hpointer, hcontainer, hprimitive, hstring, harray⟩ := flags_inj hflags
  refine ⟨?_, hrests⟩
  have hdimensions' : (level.fixedArray.map fun array => array.dimensions).getD [] =
      (other.fixedArray.map fun array => array.dimensions).getD [] := hdimensions
  have hlength' : (level.fixedArray.map fun array => array.length).getD 0 =
      (other.fixedArray.map fun array => array.length).getD 0 := hlength
  simp only [hashedFields, storedLevel, hname, htype.1, hoffset, hpointer, hcontainer, hprimitive,
    hstring, harray, hdimensions', hlength']

end Levels

/-- A name that is none of the empty text stands where a level begins. -/
theorem follows_levels {levels : List ResolvedLevel}
    (hlevels : ∀ level ∈ levels, level.WellFormed) (hnames : ∀ level ∈ levels, level.name ≠ "") :
    Follows ((levels.map ResolvedLevel.toPathLevel).flatMap levelBytes) := by
  intro byte hbyte
  cases levels with
  | nil => exact absurd hbyte (by simp)
  | cons level levels =>
    obtain ⟨first, name, hname⟩ := List.exists_cons_of_ne_nil
      (bytes_ne_nil (hnames level List.mem_cons_self))
    rw [List.map_cons, List.flatMap_cons, levelBytes, hname] at hbyte
    have hfirst : first = byte := by simpa using hbyte
    refine printable_bytes (hlevels level List.mem_cons_self).name_text byte ?_
    rw [hname, hfirst]
    exact List.mem_cons_self

/-- Levels of one path with the same bytes have the same hashed fields. -/
theorem hashedFields_of_bytes {levels others : List ResolvedLevel}
    (hlevels : ∀ level ∈ levels, level.WellFormed) (hothers : ∀ level ∈ others, level.WellFormed)
    (hnames : levels.map (fun level => level.name) = others.map fun level => level.name)
    (hne : ∀ level ∈ levels, level.name ≠ "")
    (h : (levels.map ResolvedLevel.toPathLevel).flatMap levelBytes =
      (others.map ResolvedLevel.toPathLevel).flatMap levelBytes) :
    levels.map hashedFields = others.map hashedFields := by
  induction levels generalizing others with
  | nil =>
    cases others with
    | nil => rfl
    | cons other others => exact absurd hnames (by simp)
  | cons level levels ih =>
    cases others with
    | nil => exact absurd hnames (by simp)
    | cons other others =>
      rw [List.map_cons, List.map_cons] at hnames
      obtain ⟨hname, hnames⟩ := List.cons.inj hnames
      have hmore (next : ResolvedLevel) (hnext : next ∈ levels) := hlevels next
        (List.mem_cons_of_mem _ hnext)
      have hmoreNames (next : ResolvedLevel) (hnext : next ∈ levels) := hne next
        (List.mem_cons_of_mem _ hnext)
      have hotherMore (next : ResolvedLevel) (hnext : next ∈ others) := hothers next
        (List.mem_cons_of_mem _ hnext)
      have hotherNames : ∀ next ∈ others, next.name ≠ "" := by
        intro next hnext
        have hmem : next.name ∈ levels.map fun level => level.name :=
          hnames ▸ List.mem_map_of_mem hnext
        obtain ⟨same, hsame, hsameName⟩ := List.mem_map.mp hmem
        rw [← hsameName]
        exact hmoreNames same hsame
      rw [List.map_cons, List.map_cons, List.flatMap_cons, List.flatMap_cons] at h
      obtain ⟨hfields, hrest⟩ := levelBytes_inj (hlevels level List.mem_cons_self)
        (hothers other List.mem_cons_self) hname (follows_levels hmore hmoreNames)
        (follows_levels hotherMore hotherNames) h
      rw [List.map_cons, List.map_cons, hfields, ih hmore hotherMore hnames hmoreNames hrest]

/-! ### Plans -/

theorem memberBase_congr {last otherLast : Option ResolvedLevel}
    (h : last.map storedLevel = otherLast.map storedLevel) :
    memberBase last = memberBase otherLast := by
  cases last with
  | none => rw [Option.map_eq_none_iff.mp h.symm]
  | some last =>
    obtain ⟨other, rfl, hstored⟩ := Option.map_eq_some_iff.mp h.symm
    have hpointer : other.isPointer = last.isPointer := congrArg StoredLevel.isPointer hstored
    have hcontainer : other.isContainer = last.isContainer :=
      congrArg StoredLevel.isContainer hstored
    have harray : other.fixedArray.isSome = last.fixedArray.isSome :=
      congrArg StoredLevel.isFixedArray hstored
    have hoffset : other.cumulativeOffset = last.cumulativeOffset :=
      congrArg StoredLevel.cumulativeOffset hstored
    rw [memberBase, memberBase, hpointer, hcontainer, harray, hoffset]

theorem fieldBase_congr {last otherLast : Option ResolvedLevel} (field : String)
    (h : last.map storedLevel = otherLast.map storedLevel) :
    fieldBase last field = fieldBase otherLast field := by
  have hmember := memberBase_congr h
  cases last with
  | none => rw [Option.map_eq_none_iff.mp h.symm]
  | some last =>
    obtain ⟨other, rfl, hstored⟩ := Option.map_eq_some_iff.mp h.symm
    have htype : other.type = last.type := congrArg StoredLevel.type hstored
    have hcontainer : other.isContainer = last.isContainer :=
      congrArg StoredLevel.isContainer hstored
    have hoffset : other.cumulativeOffset = last.cumulativeOffset :=
      congrArg StoredLevel.cumulativeOffset hstored
    rw [fieldBase, fieldBase, hmember, htype, hcontainer, hoffset]

theorem storedLevel_eq {level other : ResolvedLevel} (hfields : hashedFields level = hashedFields other)
    (hoffset : level.cumulativeOffset = other.cumulativeOffset)
    (hsize : level.elementSize = other.elementSize) : storedLevel level = storedLevel other := by
  have hrestore (level : ResolvedLevel) : storedLevel level =
      { hashedFields level with
        cumulativeOffset := level.cumulativeOffset, elementSize := level.elementSize } := rfl
  rw [hrestore level, hrestore other, hfields, hoffset, hsize]

/-- Levels that agree in the hashed fields and the element sizes agree in all columns. -/
theorem storedLevel_of_hashed {levels others : List ResolvedLevel}
    {last otherLast : Option ResolvedLevel}
    (hlast : last.map storedLevel = otherLast.map storedLevel)
    (hlevels : OffsetsChain last levels) (hothers : OffsetsChain otherLast others)
    (hfields : levels.map hashedFields = others.map hashedFields)
    (hsizes : levels.map (fun level => level.elementSize) =
      others.map fun level => level.elementSize) :
    levels.map storedLevel = others.map storedLevel := by
  induction levels generalizing others last otherLast with
  | nil =>
    cases others with
    | nil => rfl
    | cons other others => exact absurd hfields (by simp)
  | cons level levels ih =>
    cases others with
    | nil => exact absurd hfields (by simp)
    | cons other others =>
      rw [List.map_cons, List.map_cons] at hfields hsizes
      obtain ⟨hfield, hfields⟩ := List.cons.inj hfields
      obtain ⟨hsize, hsizes⟩ := List.cons.inj hsizes
      have hname : level.name = other.name := congrArg StoredLevel.name hfield
      have hmember : level.offsetInParent = other.offsetInParent :=
        congrArg StoredLevel.offsetInParent hfield
      have hoffset : level.cumulativeOffset = other.cumulativeOffset := by
        rw [hlevels.1, hothers.1, hname, hmember, fieldBase_congr _ hlast]
      have hstored := storedLevel_eq hfield hoffset hsize
      have hnext : (some level).map storedLevel = (some other).map storedLevel :=
        congrArg some hstored
      rw [List.map_cons, List.map_cons, hstored, ih hnext hlevels.2 hothers.2 hfields hsizes]

theorem bytes_of_hashedFields {levels others : List ResolvedLevel}
    (h : levels.map hashedFields = others.map hashedFields) :
    (levels.map ResolvedLevel.toPathLevel).flatMap levelBytes =
      (others.map ResolvedLevel.toPathLevel).flatMap levelBytes := by
  let bytesOf (fields : StoredLevel) : List UInt8 :=
    bytes fields.name ++ (bytes fields.type ++ (numberBytes 8 fields.offsetInParent ++
      (numberBytes 1 ((if fields.isPointer then 1 else 0) + (if fields.isContainer then 2 else 0) +
        (if fields.isPrimitive then 4 else 0) + (if fields.isString then 8 else 0) +
        (if fields.isFixedArray then 16 else 0) : Nat) ++
      (numberBytes 8 fields.fixedArrayLength ++
        fields.arrayDimensions.flatMap fun dimension : Nat => numberBytes 4 dimension))))
  have hbytes (levels : List ResolvedLevel) :
      (levels.map ResolvedLevel.toPathLevel).flatMap levelBytes =
        (levels.map hashedFields).flatMap bytesOf := by
    rw [List.flatMap_map, List.flatMap_map]
    rfl
  rw [hbytes, hbytes, h]

/-- Validated levels have the element sizes of the plan. -/
theorem elementSize_of_validated {schemaId : String} {levels others : List ResolvedLevel}
    (h : validateAccessPlan schemaId (others.map storedLevel) levels = .ok ()) :
    levels.map (fun level => level.elementSize) = others.map fun level => level.elementSize := by
  rw [validateAccessPlan] at h
  split at h
  · exact absurd h (by simp)
  rename_i hlength
  rw [not_not, List.length_map] at hlength
  generalize 0 = i at h
  induction levels generalizing others i with
  | nil => rw [List.length_eq_zero_iff.mp hlength.symm]
  | cons level levels ih =>
    cases others with
    | nil => exact absurd hlength (by simp)
    | cons other others =>
      rw [List.map_cons, validateLevels] at h
      split at h
      · exact absurd h (by simp)
      · exact absurd h (by simp)
      · rename_i hsame
        have hsize : level.elementSize = other.elementSize := by
          unfold levelDiffers at hsame
          dsimp only at hsame
          split at hsame
          · exact absurd hsame (by simp)
          split at hsame
          · simp only [Except.ok.injEq, Bool.or_eq_false_iff, decide_eq_false_iff_not, not_not]
              at hsame
            exact hsame.2
          · exact absurd hsame (by simp)
          · exact absurd hsame (by simp)
        rw [List.map_cons, List.map_cons, hsize, ih (Nat.succ.inj hlength) (i + 1) h]

/-! ### Identifiers -/

/-- What `WriteSchemaRows` writes for a path. -/
def writeSchemaRows (logicalPath rootClass : String) (levels : List ResolvedLevel) :
    RootSchemaMetadataRow × List StoredAccessRow :=
  let path : IndexedPathPlan := ⟨logicalPath, rootClass, levels.map ResolvedLevel.toPathLevel, []⟩
  (path.schemaRow, storedAccessRows path.accessPlanId levels)

/-- The identifier of the levels of a root class. -/
def schemaIdOf (rootClass : String) (levels : List ResolvedLevel) : String :=
  schemaFingerprint rootClass (levels.map ResolvedLevel.toPathLevel)

/-- Two byte strings that the hash does not tell apart. -/
def Collide (text other : List UInt8) : Prop :=
  text ≠ other ∧ fnv1a64 text fnvSeed = fnv1a64 other fnvSeed

/-- The hash collides on what it is fed for one of the identifiers of the two schemas. -/
def Collision (logicalPath rootClass : String) (levels others : List ResolvedLevel) : Prop :=
  Collide (fingerprintBytes rootClass (levels.map ResolvedLevel.toPathLevel))
      (fingerprintBytes rootClass (others.map ResolvedLevel.toPathLevel)) ∨
    Collide (bytes (schemaIdOf rootClass levels) ++ bytes logicalPath)
      (bytes (schemaIdOf rootClass others) ++ bytes logicalPath)

/-- The identifiers of two lists of levels of one path stand for one plan: levels with the same
    bytes validate against each other, and where the hash does not collide, levels with the same
    column or access plan are written as the same rows. -/
structure IdentifiesPlan (logicalPath rootClass : String) (levels others : List ResolvedLevel) :
    Prop where
  agree : fingerprintBytes rootClass (levels.map ResolvedLevel.toPathLevel) =
      fingerprintBytes rootClass (others.map ResolvedLevel.toPathLevel) →
    ∀ schemaId, validateAccessPlan schemaId (others.map storedLevel) levels = .ok ()
  column : columnId (schemaIdOf rootClass levels) logicalPath =
      columnId (schemaIdOf rootClass others) logicalPath →
    Collision logicalPath rootClass levels others ∨
      writeSchemaRows logicalPath rootClass levels = writeSchemaRows logicalPath rootClass others
  accessPlan : accessPlanId (schemaIdOf rootClass levels) logicalPath =
      accessPlanId (schemaIdOf rootClass others) logicalPath →
    Collision logicalPath rootClass levels others ∨
      writeSchemaRows logicalPath rootClass levels = writeSchemaRows logicalPath rootClass others

section Identifiers

variable {logicalPath rootClass : String} {levels others : List ResolvedLevel}

theorem map_hashedFields (levels : List ResolvedLevel) :
    levels.map hashedFields = (levels.map storedLevel).map fun stored =>
      { stored with cumulativeOffset := 0, elementSize := 0 } := by
  rw [List.map_map]
  rfl

theorem hashedFields_of_stored (h : levels.map storedLevel = others.map storedLevel) :
    levels.map hashedFields = others.map hashedFields := by
  rw [map_hashedFields, map_hashedFields, h]

theorem storedAccessRows_congr (accessPlanId : String)
    (h : levels.map storedLevel = others.map storedLevel) :
    storedAccessRows accessPlanId levels = storedAccessRows accessPlanId others := by
  let rowOf (level : StoredLevel × Nat) : StoredAccessRow :=
    { accessPlanId := accessPlanId, levelNo := level.2 % 2 ^ 32, fieldName := level.1.name,
      rootType := level.1.type, offsetInParent := level.1.offsetInParent,
      isPointer := level.1.isPointer, isContainer := level.1.isContainer,
      isPrimitive := level.1.isPrimitive, isString := level.1.isString,
      isFixedArray := level.1.isFixedArray, arrayLength := level.1.fixedArrayLength,
      arrayDimensions := level.1.arrayDimensions, elementSize := level.1.elementSize,
      cumulativeOffset := level.1.cumulativeOffset,
      arrayDimensionsText := arrayDimensionsText level.1.arrayDimensions }
  have hrows (levels : List ResolvedLevel) :
      storedAccessRows accessPlanId levels = (levels.map storedLevel).zipIdx.map rowOf := by
    rw [List.zipIdx_map, List.map_map]
    rfl
  rw [hrows, hrows, h]

theorem indexDepth_stored (levels : List ResolvedLevel) :
    indexDepth (levels.map ResolvedLevel.toPathLevel) =
      ((levels.map storedLevel).map fun level => (if level.isContainer then 1 else 0) +
        if level.isFixedArray then max 1 level.arrayDimensions.length else 0).sum := by
  rw [indexDepth, List.map_map, List.map_map]
  refine congrArg List.sum (List.map_congr_left fun level _ => ?_)
  cases harray : level.fixedArray with
  | none => simp [storedLevel, harray]
  | some array => simp [storedLevel, harray]

/-- The rows of a path are made of the columns of its levels. -/
theorem writeSchemaRows_congr (h : levels.map storedLevel = others.map storedLevel) :
    writeSchemaRows logicalPath rootClass levels =
      writeSchemaRows logicalPath rootClass others := by
  have hschema : schemaFingerprint rootClass (levels.map ResolvedLevel.toPathLevel) =
      schemaFingerprint rootClass (others.map ResolvedLevel.toPathLevel) := by
    rw [schemaFingerprint_eq, schemaFingerprint_eq, fingerprintBytes, fingerprintBytes,
      bytes_of_hashedFields (hashedFields_of_stored h)]
  have htype : ((levels.map ResolvedLevel.toPathLevel).getLast?.map fun level => level.type) =
      (others.map ResolvedLevel.toPathLevel).getLast?.map fun level => level.type := by
    have hlast := congrArg (fun stored : List StoredLevel =>
      stored.getLast?.map fun level => level.type) h
    simpa [List.getLast?_map, Function.comp_def, storedLevel] using hlast
  have hdepth : indexDepth (levels.map ResolvedLevel.toPathLevel) =
      indexDepth (others.map ResolvedLevel.toPathLevel) := by
    rw [indexDepth_stored, indexDepth_stored, h]
  unfold writeSchemaRows
  simp only [IndexedPathPlan.schemaRow, IndexedPathPlan.accessPlanId, IndexedPathPlan.columnId,
    IndexedPathPlan.schemaId, hschema, htype, hdepth, storedAccessRows_congr _ h]

/-- Without a collision the hash of the identifier and the path gives both back. -/
theorem bytes_of_column
    (h : fnvText logicalPath (fnvText (schemaIdOf rootClass levels) fnvSeed) =
      fnvText logicalPath (fnvText (schemaIdOf rootClass others) fnvSeed))
    (hcollision : ¬ Collision logicalPath rootClass levels others) :
    fingerprintBytes rootClass (levels.map ResolvedLevel.toPathLevel) =
      fingerprintBytes rootClass (others.map ResolvedLevel.toPathLevel) := by
  by_contra hne
  have hid : bytes (schemaIdOf rootClass levels) ++ bytes logicalPath =
      bytes (schemaIdOf rootClass others) ++ bytes logicalPath := by
    by_contra hdiffer
    refine hcollision (Or.inr ⟨hdiffer, ?_⟩)
    rw [fnv1a64_append, fnv1a64_append]
    exact h
  have hschema := bytes_inj.mp (List.append_cancel_right hid)
  rw [schemaIdOf, schemaIdOf, schemaFingerprint_eq, schemaFingerprint_eq, hex64_inj] at hschema
  exact hcollision (Or.inl ⟨hne, hschema⟩)

theorem elementSize_of_identified (h : IdentifiesPlan logicalPath rootClass levels others)
    (hfields : levels.map hashedFields = others.map hashedFields) :
    levels.map (fun level => level.elementSize) = others.map fun level => level.elementSize := by
  refine elementSize_of_validated (h.agree ?_ "")
  rw [fingerprintBytes, fingerprintBytes, bytes_of_hashedFields hfields]

end Identifiers

/-- The identifiers of two layouts of a path stand for one plan exactly when the layouts differ
in a field that is hashed or have the same element sizes. -/
theorem identifiesPlan_iff {logicalPath : String} {parsed : LogicalPath.ParsedPath}
    (hpath : LogicalPath.parsePath logicalPath.toList = .ok parsed)
    {dictionary other : Dictionary} (hdictionary : dictionary.Sound) (hother : other.Sound)
    {klass otherClass : TClass} {levels others : List ResolvedLevel}
    (hlevels : resolvePath dictionary klass (parsed.fields.map String.ofList) true = .ok levels)
    (hothers : resolvePath other otherClass (parsed.fields.map String.ofList) true =
      .ok others) :
    IdentifiesPlan logicalPath (String.ofList parsed.rootClass) levels others ↔
      levels.map hashedFields ≠ others.map hashedFields ∨
        levels.map (fun level => level.elementSize) =
          others.map fun level => level.elementSize := by
  obtain ⟨hnames, hformed, hchain⟩ := resolvePath_spec hdictionary hlevels
  obtain ⟨hotherNames, hotherFormed, hotherChain⟩ := resolvePath_spec hother hothers
  have hnonempty : ∀ level ∈ levels, level.name ≠ "" := by
    intro level hlevel hempty
    have hmem : level.name ∈ parsed.fields.map String.ofList :=
      hnames ▸ List.mem_map_of_mem hlevel
    obtain ⟨field, hfield, hname⟩ := List.mem_map.mp hmem
    have hcomponent : field ∈ LogicalPath.components logicalPath.toList :=
      (LogicalPath.parsePath_ok_iff.mp hpath).1 ▸ List.mem_cons_of_mem _ hfield
    rw [LogicalPath.components, List.mem_filter] at hcomponent
    rw [hempty, ← String.ofList_nil] at hname
    exact absurd hcomponent.2 (by rw [String.ofList_injective hname]; decide)
  constructor
  · intro h
    by_cases hfields : levels.map hashedFields = others.map hashedFields
    · exact Or.inr (elementSize_of_identified h hfields)
    · exact Or.inl hfields
  · intro h
    have hstored (hbytes : fingerprintBytes (String.ofList parsed.rootClass)
        (levels.map ResolvedLevel.toPathLevel) =
        fingerprintBytes (String.ofList parsed.rootClass)
          (others.map ResolvedLevel.toPathLevel)) :
        levels.map storedLevel = others.map storedLevel := by
      have hfields := hashedFields_of_bytes hformed hotherFormed (hnames.trans hotherNames.symm)
        hnonempty (List.append_cancel_left hbytes)
      exact storedLevel_of_hashed rfl hchain hotherChain hfields
        (h.resolve_left (not_not.mpr hfields))
    have hrows (hhash : fnvText logicalPath (fnvText (schemaIdOf (String.ofList parsed.rootClass)
          levels) fnvSeed) =
        fnvText logicalPath (fnvText (schemaIdOf (String.ofList parsed.rootClass) others)
          fnvSeed)) :
        Collision logicalPath (String.ofList parsed.rootClass) levels others ∨
          writeSchemaRows logicalPath (String.ofList parsed.rootClass) levels =
            writeSchemaRows logicalPath (String.ofList parsed.rootClass) others := by
      by_cases hcollision : Collision logicalPath (String.ofList parsed.rootClass) levels others
      · exact Or.inl hcollision
      · exact Or.inr (writeSchemaRows_congr (hstored (bytes_of_column hhash hcollision)))
    refine ⟨fun hbytes schemaId => ?_, fun hcolumn => hrows (hex64_inj.mp hcolumn),
      fun hplan => hrows ?_⟩
    · rw [← hstored hbytes, validateAccessPlan, if_neg (by simp)]
      exact validateLevels_self levels (resolvePath_hasBaseType hlevels) 0
    · exact UInt64.xor_left_inj _ |>.mp (hex64_inj.mp hplan)

/-! ### An array of objects -/

/-- A class with an array of cells, whose class may be larger than its only member. -/
def cellDictionary (count size : Nat) : Dictionary where
  classes := [
    { name := "Board", size := count * size, members := some [
      { name := "cells", typeName := "Cell", type := 81, maxIndex := [Int32.ofNat count], offset := 0,
        classPointer := some 1 }] },
    { name := "Cell", size := size, members := some [
      { name := "x", typeName := "int", type := 3, offset := 0 }] }]
  getClass _ := none

/-- The columns of the levels of `/Board/cells/x`. -/
def cellLevels (count size : Nat) : Except String (List StoredLevel) :=
  (resolvePath (cellDictionary count size) 0 ["cells", "x"] true).map (List.map storedLevel)

def cellsLevel (count size : Nat) : StoredLevel :=
  ⟨"cells", "Cell", 0, 0, false, false, false, false, true, count, [count], size⟩

def cellValue : StoredLevel := ⟨"x", "int", 0, 0, false, false, true, false, false, 0, [], 4⟩

theorem cellDictionary_sound {count size : Nat} (hcount : count * size < 2 ^ 31)
    (hsize : 4 ≤ size ∧ size < 2 ^ 31) : (cellDictionary count size).Sound := by
  have hclasses {P : ClassInfo → Prop} (hboard : P ((cellDictionary count size).info 0))
      (hcell : P ((cellDictionary count size).info 1)) :
      ∀ info ∈ (cellDictionary count size).classes, P info := by
    intro info hinfo
    rcases List.mem_cons.mp hinfo with rfl | hinfo
    · exact hboard
    · rw [List.mem_singleton.mp hinfo]
      exact hcell
  have hmembers {P : StreamerMember → Prop} {member : StreamerMember} (hmember : P member) :
      ∀ other ∈ [member], P other := by
    intro other hother
    rwa [List.mem_singleton.mp hother]
  constructor
  · refine hclasses (show Printable "Board".toList from ?_) (show Printable "Cell".toList from ?_)
    · decide
    · decide
  · exact hclasses (show count * size < 2 ^ 31 from hcount) (show size < 2 ^ 31 by omega)
  · refine hclasses (hmembers ?_) (hmembers ?_)
    · exact ⟨show Printable "cells".toList by decide, show Printable "Cell".toList by decide⟩
    · exact ⟨show Printable "x".toList by decide, show Printable "int".toList by decide⟩
  · refine hclasses (hmembers ?_) (hmembers ?_)
    · exact ⟨Int.le_refl 0, Int.natCast_nonneg _⟩
    · exact ⟨Int.le_refl 0, Int.natCast_nonneg _⟩
  · refine hclasses (hmembers ?_) (hmembers ?_)
    · exact fun hbase => (by cases hbase)
    · exact fun hbase => (by cases hbase)

theorem resolve_cells {count size : Nat}
    (h : cellLevels count size = .ok [cellsLevel count size, cellValue]) :
    ∃ levels, resolvePath (cellDictionary count size) 0 ["cells", "x"] true = .ok levels ∧
      levels.map storedLevel = [cellsLevel count size, cellValue] := by
  rw [cellLevels] at h
  cases hpath : resolvePath (cellDictionary count size) 0 ["cells", "x"] true with
  | error e =>
    rw [hpath] at h
    exact absurd h (by simp [Except.map])
  | ok levels =>
    rw [hpath] at h
    exact ⟨levels, rfl, Except.ok.inj h⟩

/-- Cells of four and of eight bytes have the same identifiers. -/
theorem element_size_not_identified :
    ∃ levels others,
      resolvePath (cellDictionary 2 4) 0 ["cells", "x"] true = .ok levels ∧
      resolvePath (cellDictionary 2 8) 0 ["cells", "x"] true = .ok others ∧
      ¬ IdentifiesPlan "/Board/cells/x" "Board" levels others := by
  obtain ⟨levels, hlevels, hstored⟩ := @resolve_cells 2 4 (by decide +kernel)
  obtain ⟨others, hothers, hotherStored⟩ := @resolve_cells 2 8 (by decide +kernel)
  refine ⟨levels, others, hlevels, hothers, fun h => ?_⟩
  have hsizes := elementSize_of_identified h
    (by rw [map_hashedFields, map_hashedFields, hstored, hotherStored]; rfl)
  have hsizeOf (levels : List ResolvedLevel) : levels.map (fun level => level.elementSize) =
      (levels.map storedLevel).map fun stored => stored.elementSize := by
    rw [List.map_map]
    rfl
  rw [hsizeOf, hsizeOf, hstored, hotherStored] at hsizes
  exact absurd hsizes (by decide)

/-- The identifiers of the path to two and to three cells. -/
theorem cells_identified :
    ∃ levels others,
      resolvePath (cellDictionary 2 4) 0 ["cells", "x"] true = .ok levels ∧
      resolvePath (cellDictionary 3 4) 0 ["cells", "x"] true = .ok others ∧
      IdentifiesPlan "/Board/cells/x" "Board" levels others := by
  obtain ⟨levels, hlevels, hstored⟩ := @resolve_cells 2 4 (by decide +kernel)
  obtain ⟨others, hothers, hotherStored⟩ := @resolve_cells 3 4 (by decide +kernel)
  have hpath : LogicalPath.parsePath "/Board/cells/x".toList =
      .ok ⟨"Board".toList, ["cells".toList, "x".toList]⟩ := by decide +kernel
  have hfields : levels.map hashedFields ≠ others.map hashedFields := by
    rw [map_hashedFields, map_hashedFields, hstored, hotherStored]
    decide
  exact ⟨levels, others, hlevels, hothers,
    (identifiesPlan_iff hpath (cellDictionary_sound (by decide) (by decide))
      (cellDictionary_sound (by decide) (by decide)) hlevels hothers).mpr (.inl hfields)⟩

end RootLake.Index

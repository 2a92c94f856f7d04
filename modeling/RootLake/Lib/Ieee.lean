import Mathlib.Data.Nat.Log
import Mathlib.Order.Basic
import Mathlib.Tactic.Ring

/-!
# Binary64 words and their orders

A double is its 64-bit word. The lower 63 bits, read as a number, order the magnitudes,
so comparing two doubles that are not NaN is comparing two integers (`Double.key`), and
the two zeros have the same key. Three orders are used by programs that mix C++ and SQL:

* the IEEE comparisons `lt`, `le`, `eq`, false as soon as a NaN takes part;
* the total preorder of SQL engines, in which NaN is greater than every other value
  (`sqlKey`);
* the integer order, carried over by the correctly rounded conversion `ofInt`, which is
  monotone everywhere and strict below `2^53`.
-/

namespace RootLake.Ieee

/-- A binary64 word. -/
structure Double where
  bits : UInt64
  deriving DecidableEq, Repr, Inhabited

namespace Double

/-- Magnitude of the infinities; the magnitudes above it are NaNs. -/
def infMagnitude : Nat := 2047 * 2 ^ 52

def magnitude (d : Double) : Nat := d.bits.toNat % 2 ^ 63

def negative (d : Double) : Bool := decide (2 ^ 63 ≤ d.bits.toNat)

def isNaN (d : Double) : Bool := decide (infMagnitude < d.magnitude)

def isInf (d : Double) : Bool := decide (d.magnitude = infMagnitude)

def isFinite (d : Double) : Bool := decide (d.magnitude < infMagnitude)

/-- Signed magnitude: the order of the doubles that are not NaN. -/
def key (d : Double) : Int := if d.negative then -(d.magnitude : Int) else d.magnitude

def lt (a b : Double) : Bool := !a.isNaN && !b.isNaN && decide (a.key < b.key)

def le (a b : Double) : Bool := !a.isNaN && !b.isNaN && decide (a.key ≤ b.key)

def eq (a b : Double) : Bool := !a.isNaN && !b.isNaN && decide (a.key = b.key)

/-- Order of SQL engines: NaN equals NaN and is greater than everything else. -/
def sqlKey (d : Double) : Int := if d.isNaN then (infMagnitude : Int) + 1 else d.key

def posInf : Double := ⟨UInt64.ofNat infMagnitude⟩

def negInf : Double := ⟨UInt64.ofNat (2 ^ 63 + infMagnitude)⟩

def quietNaN : Double := ⟨UInt64.ofNat (infMagnitude + 2 ^ 51)⟩

def zero : Double := ⟨0⟩

/-- Quotient rounded to nearest, ties to even. -/
def roundHalfEven (n d : Nat) : Nat :=
  if 2 * (n % d) < d then n / d
  else if d < 2 * (n % d) then n / d + 1
  else n / d + n / d % 2

/-- Magnitude of the double nearest to a natural number. -/
def natMagnitude (n : Nat) : Nat :=
  if n = 0 then 0
  else
    (n.log2 + 1022) * 2 ^ 52 +
      (if n.log2 ≤ 52 then n * 2 ^ (52 - n.log2) else roundHalfEven n (2 ^ (n.log2 - 52)))

/-- The double nearest to an integer of at most 64 bits. -/
def ofInt (i : Int) : Double :=
  ⟨UInt64.ofNat (natMagnitude i.natAbs + if i < 0 then 2 ^ 63 else 0)⟩

def ofNat (n : Nat) : Double := ofInt n

/-- The magnitude of the double with the value of a binary32 word; a NaN becomes quiet. -/
def float32Magnitude (exponent fraction : Nat) : Nat :=
  if exponent = 255 then
    if fraction = 0 then infMagnitude else infMagnitude + 2 ^ 51 + fraction % 2 ^ 22 * 2 ^ 29
  else if exponent = 0 then
    if fraction = 0 then 0
    else
      (fraction.log2 + 874) * 2 ^ 52 + (fraction - 2 ^ fraction.log2) * 2 ^ (52 - fraction.log2)
  else (exponent + 896) * 2 ^ 52 + fraction * 2 ^ 29

/-- The conversion of a binary32 word, which is exact. -/
def ofFloat32 (word : Nat) : Double :=
  ⟨UInt64.ofNat (word / 2 ^ 31 % 2 * 2 ^ 63 +
    float32Magnitude (word / 2 ^ 23 % 256) (word % 2 ^ 23))⟩

example : ofFloat32 0x3FC00000 = ⟨0x3FF8000000000000⟩ := by decide

example : ofFloat32 0x80000001 = ⟨0xB6A0000000000000⟩ := by decide

/-- Integer part of a magnitude below the infinities. -/
def truncMagnitude (magnitude : Nat) : Nat :=
  let exponent := magnitude / 2 ^ 52
  let significand := 2 ^ 52 + magnitude % 2 ^ 52
  if exponent = 0 then 0
  else if 1075 ≤ exponent then significand * 2 ^ (exponent - 1075)
  else significand / 2 ^ (1075 - exponent)

/-- Truncation toward zero of a finite double. -/
def trunc (d : Double) : Int :=
  if d.negative then -(truncMagnitude d.magnitude : Int) else truncMagnitude d.magnitude

/-! ### Classification -/

theorem isFinite_iff {d : Double} : d.isFinite = true ↔ d.magnitude < infMagnitude := by
  simp [isFinite]

theorem isInf_iff {d : Double} : d.isInf = true ↔ d.magnitude = infMagnitude := by
  simp [isInf]

theorem isNaN_iff {d : Double} : d.isNaN = true ↔ infMagnitude < d.magnitude := by
  simp [isNaN]

theorem isNaN_eq_false_iff {d : Double} : d.isNaN = false ↔ d.magnitude ≤ infMagnitude := by
  simp [isNaN]

theorem isFinite.not_nan {d : Double} (h : d.isFinite = true) : d.isNaN = false := by
  rw [isFinite_iff] at h
  rw [isNaN_eq_false_iff]
  omega

theorem isInf.not_nan {d : Double} (h : d.isInf = true) : d.isNaN = false := by
  rw [isInf_iff] at h
  rw [isNaN_eq_false_iff]
  omega

theorem isInf.not_finite {d : Double} (h : d.isInf = true) : d.isFinite = false := by
  rw [isInf_iff] at h
  simp [isFinite, h]

theorem isNaN.not_finite {d : Double} (h : d.isNaN = true) : d.isFinite = false := by
  rw [isNaN_iff] at h
  simp [isFinite, Nat.le_of_lt h]

theorem isFinite.not_inf {d : Double} (h : d.isFinite = true) : d.isInf = false := by
  rw [isFinite_iff] at h
  simp [isInf, Nat.ne_of_lt h]

theorem isNaN.not_inf {d : Double} (h : d.isNaN = true) : d.isInf = false := by
  rw [isNaN_iff] at h
  simp [isInf, Nat.ne_of_gt h]

/-- Every double is finite, infinite or NaN. -/
theorem classify (d : Double) : d.isFinite = true ∨ d.isInf = true ∨ d.isNaN = true := by
  simp only [isFinite_iff, isInf_iff, isNaN_iff]
  omega

theorem key_natAbs (d : Double) : d.key.natAbs = d.magnitude := by
  unfold key
  split <;> simp

/-! ### Comparisons -/

theorem lt_iff {a b : Double} (ha : a.isNaN = false) (hb : b.isNaN = false) :
    a.lt b = true ↔ a.key < b.key := by
  simp [lt, ha, hb]

theorem le_iff {a b : Double} (ha : a.isNaN = false) (hb : b.isNaN = false) :
    a.le b = true ↔ a.key ≤ b.key := by
  simp [le, ha, hb]

theorem eq_iff {a b : Double} (ha : a.isNaN = false) (hb : b.isNaN = false) :
    a.eq b = true ↔ a.key = b.key := by
  simp [eq, ha, hb]

/-- Apart from the two zeros, the key determines the word. -/
theorem eq_of_key_eq {a b : Double} (h : a.key = b.key) (hne : a.key ≠ 0) : a = b := by
  have hbits : a.bits.toNat = b.bits.toNat := by
    have ha := a.bits.toNat_lt
    have hb := b.bits.toNat_lt
    simp only [key, negative, magnitude, decide_eq_true_eq] at h hne
    split at h <;> split at h <;> omega
  cases a
  cases b
  exact congrArg Double.mk (UInt64.toNat_inj.mp hbits)

theorem sqlKey_of_not_nan {d : Double} (h : d.isNaN = false) : d.sqlKey = d.key := by
  simp [sqlKey, h]

theorem sqlKey_of_nan {d : Double} (h : d.isNaN = true) : d.sqlKey = infMagnitude + 1 := by
  simp [sqlKey, h]

theorem key_bounds_finite {d : Double} (h : d.isFinite = true) :
    -(infMagnitude : Int) < d.key ∧ d.key < infMagnitude := by
  have hmag := isFinite_iff.mp h
  have habs := key_natAbs d
  omega

/-- An infinity has one of the two extreme keys. -/
theorem key_of_isInf {d : Double} (h : d.isInf = true) :
    d.key = infMagnitude ∨ d.key = -(infMagnitude : Int) := by
  have hmag := isInf_iff.mp h
  have habs := key_natAbs d
  omega

/-! ### Conversion of integers -/

theorem roundHalfEven_bounds (n d : Nat) :
    n / d ≤ roundHalfEven n d ∧ roundHalfEven n d ≤ n / d + 1 := by
  unfold roundHalfEven
  split
  · omega
  · split
    · omega
    · omega

theorem roundHalfEven_mono {m n d : Nat} (h : m ≤ n) :
    roundHalfEven m d ≤ roundHalfEven n d := by
  have hm := roundHalfEven_bounds m d
  have hn := roundHalfEven_bounds n d
  have hq : m / d ≤ n / d := Nat.div_le_div_right h
  rcases Nat.lt_or_eq_of_le hq with hlt | heq
  · omega
  · -- equal quotients: the remainders decide
    have hmod : m % d ≤ n % d := by
      have h1 := Nat.div_add_mod m d
      have h2 := Nat.div_add_mod n d
      rw [heq] at h1
      omega
    unfold roundHalfEven
    rw [heq]
    split <;> split <;> (try split) <;> (try split) <;> omega

/-- The significand lies between `2^52` and `2^53`, the bound reached by a carry. -/
theorem significand_bounds {n : Nat} (hn : n ≠ 0) :
    2 ^ 52 ≤ (if n.log2 ≤ 52 then n * 2 ^ (52 - n.log2)
        else roundHalfEven n (2 ^ (n.log2 - 52))) ∧
      (if n.log2 ≤ 52 then n * 2 ^ (52 - n.log2)
        else roundHalfEven n (2 ^ (n.log2 - 52))) ≤ 2 ^ 53 := by
  have hlow : 2 ^ n.log2 ≤ n := Nat.log2_self_le hn
  have hhigh : n < 2 ^ (n.log2 + 1) := Nat.lt_log2_self
  split
  next he =>
    have h52 : 2 ^ n.log2 * 2 ^ (52 - n.log2) = 2 ^ 52 := by
      rw [← Nat.pow_add]
      congr 1
      omega
    have h53 : 2 ^ (n.log2 + 1) * 2 ^ (52 - n.log2) = 2 ^ 53 := by
      rw [← Nat.pow_add]
      congr 1
      omega
    constructor
    · rw [← h52]
      exact Nat.mul_le_mul_right _ hlow
    · rw [← h53]
      exact Nat.mul_le_mul_right _ (Nat.le_of_lt hhigh)
  next he =>
    have hpos : 0 < 2 ^ (n.log2 - 52) := Nat.two_pow_pos _
    have h52 : 2 ^ 52 * 2 ^ (n.log2 - 52) = 2 ^ n.log2 := by
      rw [← Nat.pow_add]
      congr 1
      omega
    have h53 : 2 ^ 53 * 2 ^ (n.log2 - 52) = 2 ^ (n.log2 + 1) := by
      rw [← Nat.pow_add]
      congr 1
      omega
    have hq52 : 2 ^ 52 ≤ n / 2 ^ (n.log2 - 52) := by
      rw [Nat.le_div_iff_mul_le hpos, h52]
      exact hlow
    have hq53 : n / 2 ^ (n.log2 - 52) < 2 ^ 53 := by
      rw [Nat.div_lt_iff_lt_mul hpos, h53]
      exact hhigh
    have hb := roundHalfEven_bounds n (2 ^ (n.log2 - 52))
    omega

/-- Rounding to the nearest double is monotone. -/
theorem natMagnitude_mono {m n : Nat} (h : m ≤ n) : natMagnitude m ≤ natMagnitude n := by
  unfold natMagnitude
  by_cases hm : m = 0
  · simp [hm]
  have hn : n ≠ 0 := by omega
  rw [if_neg hm, if_neg hn]
  have hlog : m.log2 ≤ n.log2 := by
    rw [Nat.le_log2 hn]
    exact Nat.le_trans (Nat.log2_self_le hm) h
  have hbm := significand_bounds hm
  have hbn := significand_bounds hn
  rcases Nat.lt_or_eq_of_le hlog with hlt | heq
  · omega
  · rw [heq]
    by_cases he : n.log2 ≤ 52
    · rw [if_pos he, if_pos he]
      exact Nat.add_le_add_left (Nat.mul_le_mul_right _ h) _
    · rw [if_neg he, if_neg he]
      exact Nat.add_le_add_left (roundHalfEven_mono h) _

/-- Below `2^53` every integer is a double, so the conversion is strict there. -/
theorem natMagnitude_strict {m n : Nat} (hm53 : m < 2 ^ 53) (h : m < n) :
    natMagnitude m < natMagnitude n := by
  unfold natMagnitude
  have hn : n ≠ 0 := by omega
  rw [if_neg hn]
  have hbn := significand_bounds hn
  by_cases hm : m = 0
  · rw [if_pos hm]
    omega
  rw [if_neg hm]
  have hlogm : m.log2 ≤ 52 := by
    have : m.log2 < 53 := (Nat.log2_lt hm).mpr hm53
    omega
  have hlog : m.log2 ≤ n.log2 := by
    rw [Nat.le_log2 hn]
    exact Nat.le_trans (Nat.log2_self_le hm) (Nat.le_of_lt h)
  rcases Nat.lt_or_eq_of_le hlog with hlt | heq
  · have hhigh : m < 2 ^ (m.log2 + 1) := Nat.lt_log2_self
    have h53 : 2 ^ (m.log2 + 1) * 2 ^ (52 - m.log2) = 2 ^ 53 := by
      rw [← Nat.pow_add]
      congr 1
      omega
    have hsig : m * 2 ^ (52 - m.log2) < 2 ^ 53 := by
      rw [← h53]
      exact Nat.mul_lt_mul_of_pos_right hhigh (Nat.two_pow_pos _)
    rw [if_pos hlogm]
    omega
  · have hlogn : n.log2 ≤ 52 := heq ▸ hlogm
    rw [heq, if_pos hlogn, if_pos hlogn]
    exact Nat.add_lt_add_left (Nat.mul_lt_mul_of_pos_right h (Nat.two_pow_pos _)) _

/-- Integers of at most 64 bits are far below the infinities. -/
theorem natMagnitude_lt_inf {n : Nat} (h : n ≤ 2 ^ 64) : natMagnitude n < infMagnitude := by
  have hle := natMagnitude_mono h
  have htop : natMagnitude (2 ^ 64) = 1087 * 2 ^ 52 := by decide
  unfold infMagnitude
  omega

theorem ofInt_bits {i : Int} (h : i.natAbs ≤ 2 ^ 64) :
    (ofInt i).bits.toNat = natMagnitude i.natAbs + if i < 0 then 2 ^ 63 else 0 := by
  have hlt := natMagnitude_lt_inf h
  have hinf : infMagnitude < 2 ^ 63 := by decide
  unfold ofInt
  simp only [UInt64.toNat_ofNat']
  apply Nat.mod_eq_of_lt
  split <;> omega

theorem ofInt_magnitude {i : Int} (h : i.natAbs ≤ 2 ^ 64) :
    (ofInt i).magnitude = natMagnitude i.natAbs := by
  have hlt := natMagnitude_lt_inf h
  have hinf : infMagnitude < 2 ^ 63 := by decide
  unfold magnitude
  rw [ofInt_bits h]
  split <;> omega

theorem ofInt_key {i : Int} (h : i.natAbs ≤ 2 ^ 64) :
    (ofInt i).key = if i < 0 then -(natMagnitude i.natAbs : Int) else natMagnitude i.natAbs := by
  have hlt := natMagnitude_lt_inf h
  have hinf : infMagnitude < 2 ^ 63 := by decide
  have hneg : (ofInt i).negative = decide (i < 0) := by
    unfold negative
    rw [ofInt_bits h]
    by_cases hi : i < 0
    · simp [hi]
    · simp only [hi, if_false, decide_false, decide_eq_false_iff_not]
      omega
  unfold key
  rw [hneg, ofInt_magnitude h]
  simp

theorem ofInt_isFinite {i : Int} (h : i.natAbs ≤ 2 ^ 64) : (ofInt i).isFinite = true := by
  rw [isFinite_iff, ofInt_magnitude h]
  exact natMagnitude_lt_inf h

/-- The conversion of 64-bit integers never reverses their order. -/
theorem ofInt_key_mono {i j : Int} (hi : i.natAbs ≤ 2 ^ 64) (hj : j.natAbs ≤ 2 ^ 64)
    (h : i ≤ j) : (ofInt i).key ≤ (ofInt j).key := by
  rw [ofInt_key hi, ofInt_key hj]
  by_cases hi0 : i < 0
  · by_cases hj0 : j < 0
    · rw [if_pos hi0, if_pos hj0]
      have := natMagnitude_mono (m := j.natAbs) (n := i.natAbs) (by omega)
      omega
    · rw [if_pos hi0, if_neg hj0]
      omega
  · have hj0 : ¬ j < 0 := by omega
    rw [if_neg hi0, if_neg hj0]
    have := natMagnitude_mono (m := i.natAbs) (n := j.natAbs) (by omega)
    omega

/-- The conversion is strict when one side is below `2^53` in magnitude. -/
theorem ofInt_key_strict {i j : Int} (hi : i.natAbs ≤ 2 ^ 64) (hj : j.natAbs ≤ 2 ^ 64)
    (hsmall : i.natAbs < 2 ^ 53 ∨ j.natAbs < 2 ^ 53) (h : i < j) :
    (ofInt i).key < (ofInt j).key := by
  rw [ofInt_key hi, ofInt_key hj]
  have hzero : ∀ n : Nat, 0 < n → 0 < natMagnitude n := by
    intro n hn
    have := natMagnitude_strict (m := 0) (n := n) (by decide) hn
    have h0 : natMagnitude 0 = 0 := by decide
    omega
  by_cases hi0 : i < 0
  · by_cases hj0 : j < 0
    · rw [if_pos hi0, if_pos hj0]
      have := natMagnitude_strict (m := j.natAbs) (n := i.natAbs) (by omega) (by omega)
      omega
    · rw [if_pos hi0, if_neg hj0]
      have := hzero i.natAbs (by omega)
      omega
  · have hj0 : ¬ j < 0 := by omega
    rw [if_neg hi0, if_neg hj0]
    have := natMagnitude_strict (m := i.natAbs) (n := j.natAbs) (by omega) (by omega)
    omega

end Double

end RootLake.Ieee

import RootLake.Lib.Ieee

/-!
# Narrowing a double

A double is narrowed to an integer by truncation, which is defined where the integer type
can hold the truncation (`truncatesInto`), and to binary32 by rounding to nearest. Both
give back what was widened: an integer below `2^53` (`trunc_ofInt`) and a binary32 word,
except that a NaN comes back quiet (`toFloat32_ofFloat32`).
-/

namespace RootLake.Ieee.Double

/-- The truncation of the double is one of the integers of a type. -/
def truncatesInto (d : Double) (low high : Int) : Bool :=
  d.isFinite && decide (low ≤ d.trunc) && decide (d.trunc ≤ high)

theorem truncatesInto_iff {d : Double} {low high : Int} :
    d.truncatesInto low high = true ↔ d.isFinite = true ∧ low ≤ d.trunc ∧ d.trunc ≤ high := by
  simp [truncatesInto, and_assoc]

/-! ### Integers -/

/-- Every integer below `2^53` is its own truncation. -/
theorem truncMagnitude_natMagnitude {n : Nat} (h : n < 2 ^ 53) :
    truncMagnitude (natMagnitude n) = n := by
  by_cases hn : n = 0
  · subst hn
    rfl
  have hlog : n.log2 ≤ 52 := by
    have := (Nat.log2_lt hn).mpr h
    omega
  have hbounds := significand_bounds hn
  rw [if_pos hlog] at hbounds
  have hhigh : n * 2 ^ (52 - n.log2) < 2 ^ 53 := by
    have h53 : 2 ^ (n.log2 + 1) * 2 ^ (52 - n.log2) = 2 ^ 53 := by
      rw [← Nat.pow_add]
      congr 1
      omega
    rw [← h53]
    exact Nat.mul_lt_mul_of_pos_right Nat.lt_log2_self (Nat.two_pow_pos _)
  have hmagnitude : natMagnitude n = (n.log2 + 1022) * 2 ^ 52 + n * 2 ^ (52 - n.log2) := by
    rw [natMagnitude, if_neg hn, if_pos hlog]
  have hexponent : natMagnitude n / 2 ^ 52 = n.log2 + 1023 := by omega
  have hsignificand : 2 ^ 52 + natMagnitude n % 2 ^ 52 = n * 2 ^ (52 - n.log2) := by omega
  rw [truncMagnitude, hexponent, hsignificand]
  rw [if_neg (by omega)]
  by_cases htop : n.log2 = 52
  · rw [if_pos (by omega), htop]
    simp
  · rw [if_neg (by omega), show 1075 - (n.log2 + 1023) = 52 - n.log2 by omega]
    exact Nat.mul_div_cancel _ (Nat.two_pow_pos _)

theorem trunc_ofInt {i : Int} (h : i.natAbs < 2 ^ 53) : (ofInt i).trunc = i := by
  have h64 : i.natAbs ≤ 2 ^ 64 := by omega
  have hneg : (ofInt i).negative = decide (i < 0) := by
    have hlt := natMagnitude_lt_inf h64
    have hinf : infMagnitude < 2 ^ 63 := by decide
    rw [negative, ofInt_bits h64]
    by_cases hi : i < 0
    · simp [hi]
    · simp only [hi, if_false, decide_false, decide_eq_false_iff_not]
      omega
  rw [trunc, hneg, ofInt_magnitude h64, truncMagnitude_natMagnitude h]
  simp only [decide_eq_true_eq]
  split <;> omega

/-- A magnitude below `2^e` has its integer part below it. -/
theorem truncMagnitude_lt {m e : Nat} (he : 52 ≤ e) (hm : m < (e + 1023) * 2 ^ 52) :
    truncMagnitude m < 2 ^ e := by
  have hsignificand : 2 ^ 52 + m % 2 ^ 52 < 2 ^ 53 := by omega
  rw [truncMagnitude]
  split
  · exact Nat.two_pow_pos e
  · split
    next hbig =>
      have hle : m / 2 ^ 52 - 1075 ≤ e - 53 := by omega
      have he53 : 53 ≤ e := by omega
      calc (2 ^ 52 + m % 2 ^ 52) * 2 ^ (m / 2 ^ 52 - 1075)
          < 2 ^ 53 * 2 ^ (m / 2 ^ 52 - 1075) :=
            Nat.mul_lt_mul_of_pos_right hsignificand (Nat.two_pow_pos _)
        _ ≤ 2 ^ 53 * 2 ^ (e - 53) :=
            Nat.mul_le_mul_left _ (Nat.pow_le_pow_right (by decide) hle)
        _ = 2 ^ e := by
            rw [← Nat.pow_add]
            congr 1
            omega
    next hsmall =>
      have hhalf : (2 ^ 52 + m % 2 ^ 52) / 2 ^ (1075 - m / 2 ^ 52) < 2 ^ 52 := by
        have htwo : 2 ^ 1 ≤ 2 ^ (1075 - m / 2 ^ 52) :=
          Nat.pow_le_pow_right (by decide) (by omega)
        rw [Nat.div_lt_iff_lt_mul (by omega)]
        calc 2 ^ 52 + m % 2 ^ 52 < 2 ^ 52 * 2 ^ 1 := by omega
          _ ≤ _ := Nat.mul_le_mul_left _ htwo
      exact Nat.lt_of_lt_of_le hhalf (Nat.pow_le_pow_right (by decide) he)

/-- A quotient without remainder is not rounded. -/
theorem roundHalfEven_mul (q : Nat) {d : Nat} (hd : 0 < d) : roundHalfEven (q * d) d = q := by
  rw [roundHalfEven, Nat.mul_mod_left, if_pos (by omega), Nat.mul_div_cancel _ hd]

theorem natMagnitude_two_pow {e : Nat} (he : 52 ≤ e) :
    natMagnitude (2 ^ e) = (e + 1023) * 2 ^ 52 := by
  have hsplit : 2 ^ e = 2 ^ 52 * 2 ^ (e - 52) := by
    rw [← Nat.pow_add]
    congr 1
    omega
  rw [natMagnitude, if_neg (Nat.two_pow_pos e).ne', Nat.log2_two_pow]
  split
  next htop =>
    obtain rfl : e = 52 := by omega
    rfl
  next =>
    rw [hsplit, roundHalfEven_mul _ (Nat.two_pow_pos _)]
    omega

/-- A magnitude of at least `2^e` has its integer part there too. -/
theorem le_truncMagnitude {m e : Nat} (he : 52 ≤ e) (hm : (e + 1023) * 2 ^ 52 ≤ m) :
    2 ^ e ≤ truncMagnitude m := by
  have hexponent : e + 1023 ≤ m / 2 ^ 52 := by
    rw [Nat.le_div_iff_mul_le (Nat.two_pow_pos 52)]
    exact hm
  clear hm
  have hzero : ¬ m / 2 ^ 52 = 0 := by omega
  have hbig : 1075 ≤ m / 2 ^ 52 := by omega
  have hsignificand : 2 ^ 52 ≤ 2 ^ 52 + m % 2 ^ 52 := Nat.le_add_right _ _
  rw [truncMagnitude, if_neg hzero, if_pos hbig]
  calc 2 ^ e = 2 ^ 52 * 2 ^ (e - 52) := by
        rw [← Nat.pow_add]
        congr 1
        omega
    _ ≤ 2 ^ 52 * 2 ^ (m / 2 ^ 52 - 1075) :=
        Nat.mul_le_mul_left _ (Nat.pow_le_pow_right (by decide) (by omega))
    _ ≤ _ := Nat.mul_le_mul_right _ hsignificand

/-- Below `2^e` as a double is below `2^e` as an integer. -/
theorem trunc_lt_two_pow_iff {d : Double} {e : Nat} (he : 52 ≤ e) (h : e ≤ 64)
    (hd : d.isFinite = true) :
    (ofInt (2 ^ e)).le d = false ↔ d.trunc < 2 ^ e := by
  have habs : ((2 : Int) ^ e).natAbs = 2 ^ e := by
    rw [Int.natAbs_pow]
    rfl
  have h64 : ((2 : Int) ^ e).natAbs ≤ 2 ^ 64 := by
    rw [habs]
    exact Nat.pow_le_pow_right (by decide) h
  have hpos : ¬ ((2 : Int) ^ e < 0) := Int.not_lt.mpr (Int.pow_nonneg (by decide))
  have hkey : (ofInt (2 ^ e)).key = ((e + 1023) * 2 ^ 52 : Nat) := by
    rw [ofInt_key h64, if_neg hpos, habs, natMagnitude_two_pow he]
  have hle := le_iff (isFinite.not_nan (ofInt_isFinite h64)) (isFinite.not_nan hd)
  rw [hkey] at hle
  have hcast : ((2 : Int) ^ e) = ((2 ^ e : Nat) : Int) := by
    rw [Nat.cast_pow]
    rfl
  have htop : (0 : Nat) < 2 ^ e := Nat.two_pow_pos e
  rw [Bool.eq_false_iff, Ne, hle, hcast, trunc, key]
  split
  next hneg => omega
  next hneg =>
    by_cases hm : d.magnitude < (e + 1023) * 2 ^ 52
    · have := truncMagnitude_lt he hm
      omega
    · have := le_truncMagnitude he (Nat.not_lt.mp hm)
      omega

/-- Not below `-2^63` as a double is not below it as an integer. -/
theorem le_trunc_of_not_lt {d : Double} (hd : d.isFinite = true)
    (h : d.lt (ofInt (-2 ^ 63)) = false) : -2 ^ 63 ≤ d.trunc := by
  have hkey : (ofInt (-2 ^ 63)).key = -((1086 * 2 ^ 52 : Nat) : Int) := by decide
  have hfinite : (ofInt (-2 ^ 63)).isFinite = true := by decide
  have hlt := lt_iff (isFinite.not_nan hd) (isFinite.not_nan hfinite)
  rw [hkey] at hlt
  rw [Bool.eq_false_iff, Ne, hlt, key] at h
  rw [trunc]
  split
  next hneg =>
    rw [if_pos hneg] at h
    by_cases hm : d.magnitude < 1086 * 2 ^ 52
    · have := truncMagnitude_lt (m := d.magnitude) (e := 63) (by decide) hm
      omega
    · have heq : d.magnitude = 1086 * 2 ^ 52 := by omega
      rw [heq]
      decide
  next hneg => omega

/-! ### Binary32 -/

/-- Magnitude of the binary32 word nearest to a double; the tie goes to the even word, an
    overflow to infinity, and a NaN becomes quiet. -/
def toFloat32Magnitude (magnitude : Nat) : Nat :=
  if infMagnitude < magnitude then 255 * 2 ^ 23 + 2 ^ 22 + magnitude % 2 ^ 52 / 2 ^ 29 % 2 ^ 22
  else if 897 ≤ magnitude / 2 ^ 52 then
    min (255 * 2 ^ 23) (roundHalfEven (magnitude - 896 * 2 ^ 52) (2 ^ 29))
  else if magnitude / 2 ^ 52 = 0 then 0
  else roundHalfEven (2 ^ 52 + magnitude % 2 ^ 52) (2 ^ (926 - magnitude / 2 ^ 52))

/-- The conversion to binary32, as a word. -/
def toFloat32 (d : Double) : Nat :=
  (if d.negative then 2 ^ 31 else 0) + toFloat32Magnitude d.magnitude

def float32IsNaN (word : Nat) : Bool := word / 2 ^ 23 % 256 = 255 && word % 2 ^ 23 ≠ 0

/-- A NaN with its quiet bit set. -/
def quietFloat32 (word : Nat) : Nat :=
  if float32IsNaN word then word / 2 ^ 23 * 2 ^ 23 + 2 ^ 22 + word % 2 ^ 22 else word

example : toFloat32 ⟨0x3FF8000000000000⟩ = 0x3FC00000 := by decide

example : toFloat32 ⟨0x47EFFFFFF0000000⟩ = 0x7F800000 := by decide

/-- The fraction of a subnormal word, moved up behind its leading bit. -/
theorem float32_subnormal_lt {fraction : Nat} (hf : fraction < 2 ^ 23) (hzero : fraction ≠ 0) :
    (fraction - 2 ^ fraction.log2) * 2 ^ (52 - fraction.log2) < 2 ^ 52 := by
  have hlog : fraction.log2 < 23 := (Nat.log2_lt hzero).mpr hf
  have hrest : fraction - 2 ^ fraction.log2 < 2 ^ fraction.log2 := by
    have := Nat.lt_log2_self (n := fraction)
    rw [Nat.pow_succ] at this
    omega
  calc _ < 2 ^ fraction.log2 * 2 ^ (52 - fraction.log2) :=
        Nat.mul_lt_mul_of_pos_right hrest (Nat.two_pow_pos _)
    _ = 2 ^ 52 := by
        rw [← Nat.pow_add]
        congr 1
        omega

/-- Widening keeps the sign apart from the magnitude. -/
theorem float32Magnitude_lt (exponent fraction : Nat) (he : exponent < 256)
    (hf : fraction < 2 ^ 23) : float32Magnitude exponent fraction < 2 ^ 63 := by
  rw [float32Magnitude, infMagnitude]
  split
  · split <;> omega
  · split
    · split
      next => exact Nat.two_pow_pos _
      next hzero =>
        have hlog : fraction.log2 < 23 := (Nat.log2_lt hzero).mpr hf
        have hshifted := float32_subnormal_lt hf hzero
        omega
    · omega

/-- No finite binary32 word is above the greatest one. -/
theorem float32Magnitude_le {exponent fraction : Nat} (he : exponent < 256)
    (hf : fraction < 2 ^ 23) (h : float32Magnitude exponent fraction < infMagnitude) :
    float32Magnitude exponent fraction ≤ float32Magnitude 254 (2 ^ 23 - 1) := by
  have hmax : float32Magnitude 254 (2 ^ 23 - 1) = 1151 * 2 ^ 52 - 2 ^ 29 := by decide
  rw [hmax]
  rw [float32Magnitude] at h ⊢
  split at h
  next htop => split at h <;> omega
  next htop =>
    rw [if_neg htop]
    by_cases hlow : exponent = 0
    · rw [if_pos hlow] at h ⊢
      split
      next => omega
      next hzero =>
        have hlog : fraction.log2 < 23 := (Nat.log2_lt hzero).mpr hf
        have hshifted := float32_subnormal_lt hf hzero
        omega
    · rw [if_neg hlow]
      omega

theorem ofFloat32_bits {word : Nat} :
    (ofFloat32 word).bits.toNat =
      word / 2 ^ 31 % 2 * 2 ^ 63 + float32Magnitude (word / 2 ^ 23 % 256) (word % 2 ^ 23) := by
  have hlt := float32Magnitude_lt (word / 2 ^ 23 % 256) (word % 2 ^ 23)
    (Nat.mod_lt _ (by decide)) (Nat.mod_lt _ (by decide))
  rw [ofFloat32, UInt64.toNat_ofNat']
  apply Nat.mod_eq_of_lt
  omega

theorem ofFloat32_magnitude (word : Nat) :
    (ofFloat32 word).magnitude = float32Magnitude (word / 2 ^ 23 % 256) (word % 2 ^ 23) := by
  have hlt := float32Magnitude_lt (word / 2 ^ 23 % 256) (word % 2 ^ 23)
    (Nat.mod_lt _ (by decide)) (Nat.mod_lt _ (by decide))
  rw [magnitude, ofFloat32_bits]
  omega

theorem ofFloat32_negative (word : Nat) :
    (ofFloat32 word).negative = decide (word / 2 ^ 31 % 2 = 1) := by
  have hlt := float32Magnitude_lt (word / 2 ^ 23 % 256) (word % 2 ^ 23)
    (Nat.mod_lt _ (by decide)) (Nat.mod_lt _ (by decide))
  rw [negative, ofFloat32_bits]
  congr 1
  apply propext
  omega

/-- Narrowing undoes widening on the magnitudes that are not NaN. -/
theorem toFloat32Magnitude_widened {exponent fraction : Nat} (he : exponent < 256)
    (hf : fraction < 2 ^ 23) (h : exponent = 255 → fraction = 0) :
    toFloat32Magnitude (float32Magnitude exponent fraction) = exponent * 2 ^ 23 + fraction := by
  by_cases htop : exponent = 255
  · subst htop
    rw [h rfl]
    decide
  by_cases hlow : exponent = 0
  · subst hlow
    by_cases hzero : fraction = 0
    · subst hzero
      decide
    -- A binary32 subnormal is a normal double.
    have hlog : fraction.log2 < 23 := (Nat.log2_lt hzero).mpr hf
    have hpow : 2 ^ fraction.log2 * 2 ^ (52 - fraction.log2) = 2 ^ 52 := by
      rw [← Nat.pow_add]
      congr 1
      omega
    have hle : 2 ^ fraction.log2 ≤ fraction := Nat.log2_self_le hzero
    have hsplit : fraction * 2 ^ (52 - fraction.log2) =
        2 ^ 52 + (fraction - 2 ^ fraction.log2) * 2 ^ (52 - fraction.log2) := by
      rw [Nat.sub_mul, hpow]
      have := Nat.mul_le_mul_right (2 ^ (52 - fraction.log2)) hle
      omega
    have hshifted := float32_subnormal_lt hf hzero
    have hmagnitude : float32Magnitude 0 fraction = (fraction.log2 + 874) * 2 ^ 52 +
        (fraction - 2 ^ fraction.log2) * 2 ^ (52 - fraction.log2) := by
      rw [float32Magnitude, if_neg (by decide), if_pos rfl, if_neg hzero]
    have hexponent : float32Magnitude 0 fraction / 2 ^ 52 = fraction.log2 + 874 := by omega
    have hfraction : 2 ^ 52 + float32Magnitude 0 fraction % 2 ^ 52 =
        fraction * 2 ^ (52 - fraction.log2) := by omega
    have hfinite : ¬ infMagnitude < float32Magnitude 0 fraction := by
      rw [infMagnitude]
      omega
    rw [toFloat32Magnitude, if_neg hfinite, hexponent, hfraction, if_neg (by omega),
      if_neg (by omega), show 926 - (fraction.log2 + 874) = 52 - fraction.log2 by omega,
      roundHalfEven_mul _ (Nat.two_pow_pos _)]
    omega
  · have hmagnitude : float32Magnitude exponent fraction =
        (exponent + 896) * 2 ^ 52 + fraction * 2 ^ 29 := by
      rw [float32Magnitude, if_neg htop, if_neg hlow]
    have hfinite : ¬ infMagnitude < float32Magnitude exponent fraction := by
      rw [infMagnitude]
      omega
    have hexponent : 897 ≤ float32Magnitude exponent fraction / 2 ^ 52 := by omega
    have hword : float32Magnitude exponent fraction - 896 * 2 ^ 52 =
        (exponent * 2 ^ 23 + fraction) * 2 ^ 29 := by omega
    rw [toFloat32Magnitude, if_neg hfinite, if_pos hexponent, hword,
      roundHalfEven_mul _ (Nat.two_pow_pos _)]
    omega

theorem toFloat32Magnitude_nan {payload : Nat} (h : payload < 2 ^ 22) :
    toFloat32Magnitude (infMagnitude + 2 ^ 51 + payload * 2 ^ 29) =
      255 * 2 ^ 23 + 2 ^ 22 + payload := by
  have hinf : infMagnitude = 2047 * 2 ^ 52 := rfl
  have hnan : infMagnitude < infMagnitude + 2 ^ 51 + payload * 2 ^ 29 := by omega
  rw [toFloat32Magnitude, if_pos hnan]
  omega

/-- A binary32 word survives the way through a double; a NaN comes back quiet. -/
theorem toFloat32_ofFloat32 {word : Nat} (h : word < 2 ^ 32) :
    toFloat32 (ofFloat32 word) = quietFloat32 word := by
  rw [toFloat32, ofFloat32_negative, ofFloat32_magnitude, quietFloat32]
  simp only [decide_eq_true_eq]
  have hf : word % 2 ^ 23 < 2 ^ 23 := Nat.mod_lt _ (by decide)
  by_cases hnan : float32IsNaN word = true
  · rw [if_pos hnan]
    simp only [float32IsNaN, Bool.and_eq_true, decide_eq_true_eq] at hnan
    obtain ⟨he, hfraction⟩ := hnan
    have hmagnitude : float32Magnitude (word / 2 ^ 23 % 256) (word % 2 ^ 23) =
        infMagnitude + 2 ^ 51 + word % 2 ^ 23 % 2 ^ 22 * 2 ^ 29 := by
      rw [float32Magnitude, if_pos he, if_neg hfraction]
    have hquiet : word % 2 ^ 23 % 2 ^ 22 = word % 2 ^ 22 := by omega
    have hlow : word % 2 ^ 22 < 2 ^ 22 := Nat.mod_lt _ (by decide)
    rw [hmagnitude, hquiet, toFloat32Magnitude_nan hlow]
    split <;> omega
  · have hword : word / 2 ^ 23 % 256 = 255 → word % 2 ^ 23 = 0 := by
      simpa [float32IsNaN] using hnan
    rw [if_neg hnan, toFloat32Magnitude_widened (Nat.mod_lt _ (by decide)) hf hword]
    split <;> omega

end RootLake.Ieee.Double

/-
  RootLake/Index/BasketStatistics.lean
  ====================================
  **The statistics of baskets and files.**

  A basket accumulator counts the NaNs and the two infinities apart and takes minimum,
  maximum and Bloom hashes of the finite values only; the minimum and maximum columns
  are NULL when there was no finite value.  A file row aggregates the rows of its
  baskets.

  The counters are natural numbers: no basket holds as many values as a word counts.
-/
import RootLake.Index.Bloom
import RootLake.Reader.PrimitiveValue
import Mathlib.Data.List.Induction

namespace RootLake.Index

open Ieee

/-! ### Minimum and maximum -/

def minDouble (a b : Double) : Double := if b.lt a then b else a

def maxDouble (a b : Double) : Double := if a.lt b then b else a

theorem minDouble_spec {a b : Double} (ha : a.isNaN = false) (hb : b.isNaN = false) :
    (minDouble a b = a ∨ minDouble a b = b) ∧
      (minDouble a b).key ≤ a.key ∧ (minDouble a b).key ≤ b.key := by
  unfold minDouble
  by_cases hlt : b.lt a = true
  · rw [if_pos hlt]
    rw [Double.lt_iff hb ha] at hlt
    exact ⟨Or.inr rfl, by omega, Int.le_refl _⟩
  · rw [if_neg hlt]
    rw [Double.lt_iff hb ha] at hlt
    exact ⟨Or.inl rfl, Int.le_refl _, by omega⟩

theorem maxDouble_spec {a b : Double} (ha : a.isNaN = false) (hb : b.isNaN = false) :
    (maxDouble a b = a ∨ maxDouble a b = b) ∧
      a.key ≤ (maxDouble a b).key ∧ b.key ≤ (maxDouble a b).key := by
  unfold maxDouble
  by_cases hlt : a.lt b = true
  · rw [if_pos hlt]
    rw [Double.lt_iff ha hb] at hlt
    exact ⟨Or.inr rfl, by omega, Int.le_refl _⟩
  · rw [if_neg hlt]
    rw [Double.lt_iff ha hb] at hlt
    exact ⟨Or.inl rfl, Int.le_refl _, by omega⟩

/-- The initial minimum lies above every finite value. -/
theorem minDouble_posInf {x : Double} (h : x.isFinite = true) : minDouble Double.posInf x = x := by
  refine if_pos ?_
  rw [Double.lt_iff (Double.isFinite.not_nan h) (by decide)]
  exact (Double.key_bounds_finite h).2

/-- The initial maximum lies below every finite value. -/
theorem maxDouble_negInf {x : Double} (h : x.isFinite = true) : maxDouble Double.negInf x = x := by
  refine if_pos ?_
  rw [Double.lt_iff (by decide) (Double.isFinite.not_nan h)]
  exact (Double.key_bounds_finite h).1

/-! ### Accumulators and rows -/

structure BasketAccumulator where
  bloom : RootBloomBuilder
  valueCount : Nat := 0
  nanCount : Nat := 0
  posInfCount : Nat := 0
  negInfCount : Nat := 0
  finiteCount : Nat := 0
  minValue : Double := Double.posInf
  maxValue : Double := Double.negInf

def BasketAccumulator.add (basket : BasketAccumulator) (value : RootPrimitiveValue)
    (statisticsEnabled : Bool) : BasketAccumulator :=
  let basket := { basket with valueCount := basket.valueCount + 1 }
  if !statisticsEnabled then basket
  else
    let number := value.asDouble
    if number.isNaN then { basket with nanCount := basket.nanCount + 1 }
    else if number.isInf then
      if Double.zero.lt number then { basket with posInfCount := basket.posInfCount + 1 }
      else { basket with negInfCount := basket.negInfCount + 1 }
    else
      { basket with
        minValue := minDouble basket.minValue number
        maxValue := maxDouble basket.maxValue number
        bloom := basket.bloom.add number
        finiteCount := basket.finiteCount + 1 }

/-- The accumulator of a basket with the given values. -/
def accumulate (bloom : RootBloomBuilder) (statisticsEnabled : Bool)
    (values : List RootPrimitiveValue) : BasketAccumulator :=
  values.foldl (fun basket value => basket.add value statisticsEnabled) { bloom := bloom }

/-- The statistics columns of a basket row or a file row. -/
structure ValueStatistics where
  minValue : Option Double
  maxValue : Option Double
  nanCount : Nat
  posInfCount : Nat
  negInfCount : Nat
  deriving DecidableEq, Repr

def nullableDouble (present : Bool) (value : Double) : Option Double :=
  if present then some value else none

def BasketAccumulator.statistics (basket : BasketAccumulator) : ValueStatistics :=
  let hasMinmax := decide (0 < basket.finiteCount)
  { minValue := nullableDouble hasMinmax basket.minValue
    maxValue := nullableDouble hasMinmax basket.maxValue
    nanCount := basket.nanCount
    posInfCount := basket.posInfCount
    negInfCount := basket.negInfCount }

/-- The Bloom column; an empty payload is stored as NULL. -/
def BasketAccumulator.bloomFilter (basket : BasketAccumulator) (statisticsEnabled : Bool) :
    Option (List UInt8) :=
  if statisticsEnabled then
    match basket.bloom.serialize with
    | [] => none
    | bytes => some bytes
  else none

/-- The running aggregates of a file. -/
structure FileStatistics where
  finiteCount : Nat := 0
  minValue : Double := Double.posInf
  maxValue : Double := Double.negInf
  nanCount : Nat := 0
  posInfCount : Nat := 0
  negInfCount : Nat := 0

/-- One round of the basket loop of `Build`. -/
def FileStatistics.addBasket (file : FileStatistics) (basket : BasketAccumulator) :
    FileStatistics :=
  let file :=
    if 0 < basket.finiteCount then
      { file with
        minValue := minDouble file.minValue basket.minValue
        maxValue := maxDouble file.maxValue basket.maxValue
        finiteCount := file.finiteCount + basket.finiteCount }
    else file
  { file with
    nanCount := file.nanCount + basket.nanCount
    posInfCount := file.posInfCount + basket.posInfCount
    negInfCount := file.negInfCount + basket.negInfCount }

def fileStatistics (baskets : List BasketAccumulator) : ValueStatistics :=
  let file := baskets.foldl FileStatistics.addBasket {}
  { minValue := nullableDouble (decide (file.finiteCount ≠ 0)) file.minValue
    maxValue := nullableDouble (decide (file.finiteCount ≠ 0)) file.maxValue
    nanCount := file.nanCount
    posInfCount := file.posInfCount
    negInfCount := file.negInfCount }

/-! ### What the aggregates say -/

/-- `lo` and `hi` are the extremes of the finite ones among the values, of which there are
    `count`. -/
structure Extremes (lo hi : Double) (count : Nat) (values : List Double) : Prop where
  empty : count = 0 → (lo = Double.posInf ∧ hi = Double.negInf) ∧
    ∀ x ∈ values, x.isFinite = false
  attained : count ≠ 0 → (lo ∈ values ∧ lo.isFinite = true) ∧ hi ∈ values ∧ hi.isFinite = true
  bounds : ∀ x ∈ values, x.isFinite = true → lo.key ≤ x.key ∧ x.key ≤ hi.key

theorem Extremes.nil : Extremes Double.posInf Double.negInf 0 [] where
  empty _ := ⟨⟨rfl, rfl⟩, fun x hx => by cases hx⟩
  attained h := absurd rfl h
  bounds x hx := by cases hx

theorem Extremes.not_nan {lo hi : Double} {count : Nat} {values : List Double}
    (h : Extremes lo hi count values) : lo.isNaN = false ∧ hi.isNaN = false := by
  by_cases hcount : count = 0
  · obtain ⟨⟨rfl, rfl⟩, -⟩ := h.empty hcount
    decide
  · obtain ⟨⟨-, hlo⟩, -, hhi⟩ := h.attained hcount
    exact ⟨Double.isFinite.not_nan hlo, Double.isFinite.not_nan hhi⟩

/-- Values that are not finite leave the extremes alone. -/
theorem Extremes.append_not_finite {lo hi : Double} {count : Nat} {values more : List Double}
    (h : Extremes lo hi count values) (hmore : ∀ x ∈ more, x.isFinite = false) :
    Extremes lo hi count (values ++ more) where
  empty hcount := by
    obtain ⟨hinit, hnone⟩ := h.empty hcount
    refine ⟨hinit, ?_⟩
    intro x hx
    exact (List.mem_append.mp hx).elim (hnone x) (hmore x)
  attained hcount := by
    obtain ⟨⟨hlo, hloFinite⟩, hhi, hhiFinite⟩ := h.attained hcount
    exact ⟨⟨List.mem_append_left _ hlo, hloFinite⟩, List.mem_append_left _ hhi, hhiFinite⟩
  bounds x hx hfinite := by
    rcases List.mem_append.mp hx with hx | hx
    · exact h.bounds x hx hfinite
    · rw [hmore x hx] at hfinite
      cases hfinite

theorem Extremes.append_one_not_finite {lo hi x : Double} {count : Nat} {values : List Double}
    (h : Extremes lo hi count values) (hx : x.isFinite = false) :
    Extremes lo hi count (values ++ [x]) := by
  refine h.append_not_finite ?_
  intro y hy
  rw [List.mem_singleton.mp hy]
  exact hx

/-- The extremes of two lists, of which the second has a finite value. -/
theorem Extremes.append {lo hi lo' hi' : Double} {count count' : Nat}
    {values more : List Double} (h : Extremes lo hi count values)
    (hmore : Extremes lo' hi' count' more) (hcount : count' ≠ 0) :
    Extremes (minDouble lo lo') (maxDouble hi hi') (count + count') (values ++ more) := by
  obtain ⟨hlo, hhi⟩ := h.not_nan
  obtain ⟨hlo', hhi'⟩ := hmore.not_nan
  obtain ⟨hminIs, hminLe, hminLe'⟩ := minDouble_spec hlo hlo'
  obtain ⟨hmaxIs, hmaxGe, hmaxGe'⟩ := maxDouble_spec hhi hhi'
  obtain ⟨⟨hloMem', hloFinite'⟩, hhiMem', hhiFinite'⟩ := hmore.attained hcount
  refine ⟨fun hzero => absurd hzero (by omega), ?_, ?_⟩
  · intro _
    by_cases hzero : count = 0
    · -- The initial infinities lie outside every finite value.
      obtain ⟨⟨rfl, rfl⟩, -⟩ := h.empty hzero
      rw [minDouble_posInf hloFinite', maxDouble_negInf hhiFinite']
      exact ⟨⟨List.mem_append_right _ hloMem', hloFinite'⟩, List.mem_append_right _ hhiMem',
        hhiFinite'⟩
    · obtain ⟨⟨hloMem, hloFinite⟩, hhiMem, hhiFinite⟩ := h.attained hzero
      constructor
      · rcases hminIs with heq | heq <;> rw [heq]
        · exact ⟨List.mem_append_left _ hloMem, hloFinite⟩
        · exact ⟨List.mem_append_right _ hloMem', hloFinite'⟩
      · rcases hmaxIs with heq | heq <;> rw [heq]
        · exact ⟨List.mem_append_left _ hhiMem, hhiFinite⟩
        · exact ⟨List.mem_append_right _ hhiMem', hhiFinite'⟩
  · intro x hx hfinite
    rcases List.mem_append.mp hx with hx | hx
    · obtain ⟨hge, hle⟩ := h.bounds x hx hfinite
      omega
    · obtain ⟨hge, hle⟩ := hmore.bounds x hx hfinite
      omega

theorem Extremes.singleton {x : Double} (h : x.isFinite = true) : Extremes x x 1 [x] where
  empty hcount := absurd hcount Nat.one_ne_zero
  attained _ := ⟨⟨List.mem_cons_self, h⟩, List.mem_cons_self, h⟩
  bounds y hy _ := by
    rw [List.mem_singleton.mp hy]
    exact ⟨Int.le_refl _, Int.le_refl _⟩

/-- The statistics columns describe the values. -/
structure ValueStatistics.Describes (s : ValueStatistics) (values : List Double) : Prop where
  extremes : (s.minValue = none ∧ s.maxValue = none ∧ ∀ x ∈ values, x.isFinite = false) ∨
    ∃ lo hi, s.minValue = some lo ∧ s.maxValue = some hi ∧
      (lo ∈ values ∧ lo.isFinite = true) ∧ (hi ∈ values ∧ hi.isFinite = true) ∧
        ∀ x ∈ values, x.isFinite = true → lo.key ≤ x.key ∧ x.key ≤ hi.key
  nan : 0 < s.nanCount ↔ ∃ x ∈ values, x.isNaN = true
  posInf : 0 < s.posInfCount ↔ ∃ x ∈ values, x.isInf = true ∧ Double.zero.lt x = true
  negInf : 0 < s.negInfCount ↔ ∃ x ∈ values, x.isInf = true ∧ Double.zero.lt x = false

/-- The aggregates from which a row is written describe the values. -/
structure Counts (lo hi : Double) (finite nan posInf negInf : Nat) (values : List Double) :
    Prop where
  extremes : Extremes lo hi finite values
  nan : 0 < nan ↔ ∃ x ∈ values, x.isNaN = true
  posInf : 0 < posInf ↔ ∃ x ∈ values, x.isInf = true ∧ Double.zero.lt x = true
  negInf : 0 < negInf ↔ ∃ x ∈ values, x.isInf = true ∧ Double.zero.lt x = false

theorem Counts.describes {lo hi : Double} {finite nan posInf negInf : Nat}
    {values : List Double} (h : Counts lo hi finite nan posInf negInf values) (present : Bool)
    (hpresent : present = true ↔ finite ≠ 0) :
    (ValueStatistics.mk (nullableDouble present lo) (nullableDouble present hi) nan posInf
      negInf).Describes values where
  extremes := by
    by_cases hcount : finite = 0
    · have hfalse : present = false := by
        rw [Bool.eq_false_iff]
        exact fun htrue => hpresent.mp htrue hcount
      rw [hfalse]
      exact Or.inl ⟨rfl, rfl, (h.extremes.empty hcount).2⟩
    · rw [hpresent.mpr hcount]
      obtain ⟨hlo, hhi⟩ := h.extremes.attained hcount
      exact Or.inr ⟨lo, hi, rfl, rfl, hlo, hhi, h.extremes.bounds⟩
  nan := h.nan
  posInf := h.posInf
  negInf := h.negInf

/-- Counting on: what is counted of two lists is counted of one or the other. -/
theorem count_append {p : Double → Prop} {n m : Nat} {values more : List Double}
    (h : 0 < n ↔ ∃ x ∈ values, p x) (hmore : 0 < m ↔ ∃ x ∈ more, p x) :
    0 < n + m ↔ ∃ x ∈ values ++ more, p x := by
  have hpos : 0 < n + m ↔ 0 < n ∨ 0 < m := by omega
  rw [hpos, h, hmore]
  constructor
  · rintro (⟨x, hx, hp⟩ | ⟨x, hx, hp⟩)
    · exact ⟨x, List.mem_append_left _ hx, hp⟩
    · exact ⟨x, List.mem_append_right _ hx, hp⟩
  · rintro ⟨x, hx, hp⟩
    rcases List.mem_append.mp hx with hx | hx
    · exact Or.inl ⟨x, hx, hp⟩
    · exact Or.inr ⟨x, hx, hp⟩

/-- The value is the best of some, `le` says which is better; there is none if there are none. -/
def BestOf (le : Int → Int → Prop) (value : Option Double) (among : List Double) : Prop :=
  (value = none ↔ among = []) ∧ ∀ x, value = some x → x ∈ among ∧ ∀ y ∈ among, le x.key y.key

theorem BestOf.empty {le : Int → Int → Prop} {values : List Double}
    (h : ∀ x ∈ values, x.isFinite = false) : BestOf le none (values.filter Double.isFinite) := by
  refine ⟨⟨fun _ => ?_, fun _ => rfl⟩, fun x hx => by cases hx⟩
  rw [List.filter_eq_nil_iff]
  intro x hx
  simp [h x hx]

theorem BestOf.best {le : Int → Int → Prop} {values : List Double} {best : Double}
    (hmem : best ∈ values) (hfinite : best.isFinite = true)
    (h : ∀ x ∈ values, x.isFinite = true → le best.key x.key) :
    BestOf le (some best) (values.filter Double.isFinite) := by
  have hbest : best ∈ values.filter Double.isFinite := List.mem_filter.mpr ⟨hmem, hfinite⟩
  refine ⟨⟨fun hnone => absurd hnone (Option.some_ne_none best), fun hempty => ?_⟩, fun x hx => ?_⟩
  · rw [hempty] at hbest
    cases hbest
  · cases hx
    refine ⟨hbest, fun y hy => ?_⟩
    obtain ⟨hyMem, hyFinite⟩ := List.mem_filter.mp hy
    exact h y hyMem hyFinite

/-- The statistics columns are those of the values: the least and the greatest finite value, and
    the exact counts, which leave no value out. -/
structure ValueStatistics.ExactFor (s : ValueStatistics) (values : List Double) : Prop where
  minValue : BestOf (· ≤ ·) s.minValue (values.filter Double.isFinite)
  maxValue : BestOf (· ≥ ·) s.maxValue (values.filter Double.isFinite)
  nanCount : s.nanCount = values.countP Double.isNaN
  posInfCount : s.posInfCount = values.countP fun x => x.isInf && Double.zero.lt x
  negInfCount : s.negInfCount = values.countP fun x => x.isInf && !Double.zero.lt x
  all : values.length =
    values.countP Double.isFinite + s.nanCount + s.posInfCount + s.negInfCount

/-! ### Baskets -/

/-- What an accumulator says about its values. -/
def BasketAccumulator.Accumulates (basket : BasketAccumulator) (values : List Double) : Prop :=
  Counts basket.minValue basket.maxValue basket.finiteCount basket.nanCount basket.posInfCount
    basket.negInfCount values

/-- A value that is counted. -/
theorem count_append_of {p : Double → Prop} {n : Nat} {values : List Double} {x : Double}
    (h : 0 < n ↔ ∃ y ∈ values, p y) (hx : p x) : 0 < n + 1 ↔ ∃ y ∈ values ++ [x], p y :=
  count_append h ⟨fun _ => ⟨x, List.mem_cons_self, hx⟩, fun _ => Nat.one_pos⟩

/-- A value that is not counted. -/
theorem count_append_of_not {p : Double → Prop} {n : Nat} {values : List Double} {x : Double}
    (h : 0 < n ↔ ∃ y ∈ values, p y) (hx : ¬ p x) : 0 < n ↔ ∃ y ∈ values ++ [x], p y := by
  refine count_append (m := 0) h ⟨fun hzero => absurd hzero (Nat.lt_irrefl 0), ?_⟩
  rintro ⟨y, hy, hp⟩
  rw [List.mem_singleton.mp hy] at hp
  exact absurd hp hx

/-- **Step lemma**: adding a value. -/
theorem BasketAccumulator.Accumulates.add {basket : BasketAccumulator} {values : List Double}
    (h : basket.Accumulates values) (value : RootPrimitiveValue) :
    (basket.add value true).Accumulates (values ++ [value.asDouble]) := by
  unfold BasketAccumulator.add
  rw [if_neg (by decide)]
  dsimp only
  generalize value.asDouble = x
  rcases Double.classify x with hfinite | hinf | hnan
  · have hnan := Double.isFinite.not_nan hfinite
    have hinf := Double.isFinite.not_inf hfinite
    rw [if_neg (by simp [hnan]), if_neg (by simp [hinf])]
    exact ⟨h.extremes.append (.singleton hfinite) Nat.one_ne_zero,
      count_append_of_not h.nan (by simp [hnan]), count_append_of_not h.posInf (by simp [hinf]),
      count_append_of_not h.negInf (by simp [hinf])⟩
  · have hnan := Double.isInf.not_nan hinf
    have hextremes := h.extremes.append_one_not_finite (Double.isInf.not_finite hinf)
    rw [if_neg (by simp [hnan]), if_pos hinf]
    by_cases hpos : Double.zero.lt x = true
    · rw [if_pos hpos]
      exact ⟨hextremes, count_append_of_not h.nan (by simp [hnan]),
        count_append_of h.posInf ⟨hinf, hpos⟩, count_append_of_not h.negInf (by simp [hpos])⟩
    · rw [if_neg hpos]
      rw [Bool.not_eq_true] at hpos
      exact ⟨hextremes, count_append_of_not h.nan (by simp [hnan]),
        count_append_of_not h.posInf (by simp [hpos]), count_append_of h.negInf ⟨hinf, hpos⟩⟩
  · have hextremes := h.extremes.append_one_not_finite (Double.isNaN.not_finite hnan)
    have hinf := Double.isNaN.not_inf hnan
    rw [if_pos hnan]
    exact ⟨hextremes, count_append_of h.nan hnan, count_append_of_not h.posInf (by simp [hinf]),
      count_append_of_not h.negInf (by simp [hinf])⟩

/-- The values as the statistics see them. -/
def doubles (values : List RootPrimitiveValue) : List Double :=
  values.map RootPrimitiveValue.asDouble

theorem accumulate_accumulates (bloom : RootBloomBuilder) (values : List RootPrimitiveValue) :
    (accumulate bloom true values).Accumulates (doubles values) := by
  induction values using List.reverseRecOn with
  | nil =>
    have hnone : ∀ p : Double → Prop, 0 < 0 ↔ ∃ x ∈ ([] : List Double), p x := by
      intro p
      simp
    exact ⟨Extremes.nil, hnone _, hnone _, hnone _⟩
  | append_singleton values value ih =>
    unfold accumulate doubles at ih ⊢
    rw [List.foldl_append, List.map_append]
    exact ih.add value

/-- The counters of an accumulator, exactly. -/
structure BasketAccumulator.CountsOf (basket : BasketAccumulator) (values : List Double) :
    Prop where
  finite : basket.finiteCount = values.countP Double.isFinite
  nan : basket.nanCount = values.countP Double.isNaN
  posInf : basket.posInfCount = values.countP fun x => x.isInf && Double.zero.lt x
  negInf : basket.negInfCount = values.countP fun x => x.isInf && !Double.zero.lt x
  all : values.length = basket.finiteCount + basket.nanCount + basket.posInfCount +
    basket.negInfCount

theorem BasketAccumulator.CountsOf.add {basket : BasketAccumulator} {values : List Double}
    (h : basket.CountsOf values) (value : RootPrimitiveValue) :
    (basket.add value true).CountsOf (values ++ [value.asDouble]) := by
  obtain ⟨hfinite, hnan, hposInf, hnegInf, hall⟩ := h
  unfold BasketAccumulator.add
  rw [if_neg (by decide)]
  dsimp only
  generalize value.asDouble = x
  rcases Double.classify x with hfinite | hinf | hnan
  · have hnot := Double.isFinite.not_nan hfinite
    have hinf := Double.isFinite.not_inf hfinite
    rw [if_neg (by simp [hnot]), if_neg (by simp [hinf])]
    refine ⟨?_, ?_, ?_, ?_, ?_⟩ <;> simp [*]
    omega
  · have hnot := Double.isInf.not_nan hinf
    have hfinite := Double.isInf.not_finite hinf
    rw [if_neg (by simp [hnot]), if_pos hinf]
    by_cases hpos : Double.zero.lt x = true
    · rw [if_pos hpos]
      refine ⟨?_, ?_, ?_, ?_, ?_⟩ <;> simp [*]
      omega
    · rw [if_neg hpos]
      refine ⟨?_, ?_, ?_, ?_, ?_⟩ <;> simp [*]
      omega
  · have hfinite := Double.isNaN.not_finite hnan
    have hinf := Double.isNaN.not_inf hnan
    rw [if_pos hnan]
    refine ⟨?_, ?_, ?_, ?_, ?_⟩ <;> simp [*]
    omega

/-- **The counters of a basket are exact**, and every value is counted by one of them. -/
theorem accumulate_countsOf (bloom : RootBloomBuilder) (values : List RootPrimitiveValue) :
    (accumulate bloom true values).CountsOf (doubles values) := by
  induction values using List.reverseRecOn with
  | nil => exact ⟨rfl, rfl, rfl, rfl, rfl⟩
  | append_singleton values value ih =>
    unfold accumulate doubles at ih ⊢
    rw [List.foldl_append, List.map_append]
    exact ih.add value

/-- **The statistics of a basket row** describe the values of the basket. -/
theorem basket_statistics_describe (bloom : RootBloomBuilder)
    (values : List RootPrimitiveValue) :
    (accumulate bloom true values).statistics.Describes (doubles values) := by
  refine (accumulate_accumulates bloom values).describes _ ?_
  rw [decide_eq_true_eq]
  omega

/-- **The statistics of a basket row are exact.** -/
theorem basket_statistics_exact (bloom : RootBloomBuilder) (values : List RootPrimitiveValue) :
    (accumulate bloom true values).statistics.ExactFor (doubles values) := by
  have hcounts := accumulate_countsOf bloom values
  have hextremes := (basket_statistics_describe bloom values).extremes
  have hall := hcounts.all
  rw [hcounts.finite] at hall
  refine ⟨?_, ?_, hcounts.nan, hcounts.posInf, hcounts.negInf, hall⟩
  · rcases hextremes with ⟨hmin, -, hnone⟩ | ⟨lo, hi, hmin, -, ⟨hlo, hfinite⟩, -, hbounds⟩
    · rw [hmin]
      exact BestOf.empty hnone
    · rw [hmin]
      exact BestOf.best hlo hfinite fun x hx h => (hbounds x hx h).1
  · rcases hextremes with ⟨-, hmax, hnone⟩ | ⟨lo, hi, -, hmax, -, ⟨hhi, hfinite⟩, hbounds⟩
    · rw [hmax]
      exact BestOf.empty hnone
    · rw [hmax]
      exact BestOf.best hhi hfinite fun x hx h => (hbounds x hx h).2

/-! ### Files -/

def FileStatistics.Aggregates (file : FileStatistics) (values : List Double) : Prop :=
  Counts file.minValue file.maxValue file.finiteCount file.nanCount file.posInfCount
    file.negInfCount values

/-- **Step lemma**: aggregating a basket. -/
theorem FileStatistics.Aggregates.addBasket {file : FileStatistics} {values more : List Double}
    (h : file.Aggregates values) {basket : BasketAccumulator} (hbasket : basket.Accumulates more) :
    (file.addBasket basket).Aggregates (values ++ more) := by
  have hnan := count_append h.nan hbasket.nan
  have hpos := count_append h.posInf hbasket.posInf
  have hneg := count_append h.negInf hbasket.negInf
  unfold FileStatistics.addBasket
  by_cases hcount : 0 < basket.finiteCount
  · rw [if_pos hcount]
    exact ⟨h.extremes.append hbasket.extremes (Nat.ne_of_gt hcount), hnan, hpos, hneg⟩
  · rw [if_neg hcount]
    have hnone := (hbasket.extremes.empty (by omega)).2
    exact ⟨h.extremes.append_not_finite hnone, hnan, hpos, hneg⟩

theorem foldl_addBasket_aggregates (bloom : RootBloomBuilder)
    (baskets : List (List RootPrimitiveValue)) :
    ((baskets.map (accumulate bloom true)).foldl FileStatistics.addBasket {}).Aggregates
      (doubles baskets.flatten) := by
  induction baskets using List.reverseRecOn with
  | nil =>
    have hnone : ∀ p : Double → Prop, 0 < 0 ↔ ∃ x ∈ ([] : List Double), p x := by
      intro p
      simp
    exact ⟨Extremes.nil, hnone _, hnone _, hnone _⟩
  | append_singleton baskets basket ih =>
    unfold doubles at ih ⊢
    rw [List.map_append, List.foldl_append, List.flatten_append, List.map_append]
    have hstep := ih.addBasket (accumulate_accumulates bloom basket)
    simpa [doubles] using hstep

/-- **The statistics of a file row** describe the values of all its baskets. -/
theorem file_statistics_describe (bloom : RootBloomBuilder)
    (baskets : List (List RootPrimitiveValue)) :
    (fileStatistics (baskets.map (accumulate bloom true))).Describes
      (doubles baskets.flatten) := by
  refine (foldl_addBasket_aggregates bloom baskets).describes _ ?_
  rw [decide_eq_true_eq]

/-- The columns of a file are the sums, the least minimum and the greatest maximum of the columns
    of its baskets. -/
structure ValueStatistics.AddsUp (file : ValueStatistics) (baskets : List ValueStatistics) :
    Prop where
  minValue : BestOf (· ≤ ·) file.minValue (baskets.filterMap (·.minValue))
  maxValue : BestOf (· ≥ ·) file.maxValue (baskets.filterMap (·.maxValue))
  nanCount : file.nanCount = (baskets.map (·.nanCount)).sum
  posInfCount : file.posInfCount = (baskets.map (·.posInfCount)).sum
  negInfCount : file.negInfCount = (baskets.map (·.negInfCount)).sum

/-- `pick` takes the better of two values, and the other one where there was none before. -/
theorem BestOf.append_one {le : Int → Int → Prop} {pick : Double → Double → Double}
    {value more : Double} {count : Nat} {among : List Double}
    (htrans : ∀ {a b c}, le a b → le b c → le a c) (hrefl : ∀ a, le a a)
    (hpick : (pick value more = value ∨ pick value more = more) ∧
      le (pick value more).key value.key ∧ le (pick value more).key more.key)
    (hstart : count = 0 → pick value more = more)
    (h : BestOf le (nullableDouble (decide (count ≠ 0)) value) among) :
    BestOf le (some (pick value more)) (among ++ [more]) := by
  obtain ⟨hnone, hsome⟩ := h
  refine ⟨by simp, ?_⟩
  intro x hx
  cases hx
  by_cases hcount : count = 0
  · have hno : among = [] := hnone.mp (by simp [nullableDouble, hcount])
    rw [hstart hcount, hno]
    simp [hrefl]
  · obtain ⟨hmem, hbest⟩ := hsome value (by simp [nullableDouble, hcount])
    constructor
    · rcases hpick.1 with heq | heq <;> rw [heq] <;> simp [hmem]
    · intro y hy
      rcases List.mem_append.mp hy with hy | hy
      · exact htrans hpick.2.1 (hbest y hy)
      · rw [List.mem_singleton.mp hy]
        exact hpick.2.2

/-- A minimum and a maximum that were taken of finite values. -/
def BasketAccumulator.FiniteExtremes (basket : BasketAccumulator) : Prop :=
  basket.finiteCount ≠ 0 → basket.minValue.isFinite = true ∧ basket.maxValue.isFinite = true

theorem accumulate_finiteExtremes (bloom : RootBloomBuilder) (enabled : Bool)
    (values : List RootPrimitiveValue) : (accumulate bloom enabled values).FiniteExtremes := by
  cases enabled with
  | true =>
    intro hcount
    obtain ⟨hmin, hmax⟩ := (accumulate_accumulates bloom values).extremes.attained hcount
    exact ⟨hmin.2, hmax.2⟩
  | false =>
    have hnone : (accumulate bloom false values).finiteCount = 0 := by
      induction values using List.reverseRecOn with
      | nil => rfl
      | append_singleton values value ih =>
        unfold accumulate at ih ⊢
        rw [List.foldl_append]
        exact ih
    exact fun hcount => absurd hnone hcount

/-- The running aggregates add up the rows of the baskets so far. -/
structure FileStatistics.AddsUp (file : FileStatistics) (baskets : List ValueStatistics) :
    Prop where
  row : (ValueStatistics.mk (nullableDouble (decide (file.finiteCount ≠ 0)) file.minValue)
    (nullableDouble (decide (file.finiteCount ≠ 0)) file.maxValue) file.nanCount file.posInfCount
    file.negInfCount).AddsUp baskets
  notNan : file.minValue.isNaN = false ∧ file.maxValue.isNaN = false
  start : file.finiteCount = 0 → file.minValue = Double.posInf ∧ file.maxValue = Double.negInf

theorem FileStatistics.AddsUp.nil : FileStatistics.AddsUp {} [] where
  row := by
    refine ⟨⟨by decide, ?_⟩, ⟨by decide, ?_⟩, rfl, rfl, rfl⟩
    · intro x hx
      cases hx
    · intro x hx
      cases hx
  notNan := by decide
  start _ := ⟨rfl, rfl⟩

/-- **Step lemma**: one more basket. -/
theorem FileStatistics.AddsUp.addBasket {file : FileStatistics} {baskets : List ValueStatistics}
    (h : file.AddsUp baskets) {basket : BasketAccumulator} (hbasket : basket.FiniteExtremes) :
    (file.addBasket basket).AddsUp (baskets ++ [basket.statistics]) := by
  obtain ⟨⟨hmin, hmax, hnan, hposInf, hnegInf⟩, ⟨hminNan, hmaxNan⟩, hstart⟩ := h
  dsimp only at hnan hposInf hnegInf
  have hsums : file.nanCount + basket.nanCount =
        ((baskets ++ [basket.statistics]).map (·.nanCount)).sum ∧
      file.posInfCount + basket.posInfCount =
        ((baskets ++ [basket.statistics]).map (·.posInfCount)).sum ∧
      file.negInfCount + basket.negInfCount =
        ((baskets ++ [basket.statistics]).map (·.negInfCount)).sum := by
    rw [hnan, hposInf, hnegInf]
    simp [BasketAccumulator.statistics]
  obtain ⟨hnans, hposInfs, hnegInfs⟩ := hsums
  unfold FileStatistics.addBasket
  by_cases hcount : 0 < basket.finiteCount
  · obtain ⟨hminFinite, hmaxFinite⟩ := hbasket (by omega)
    have hmore : decide (file.finiteCount + basket.finiteCount ≠ 0) = true := by
      rw [decide_eq_true_eq]
      omega
    obtain ⟨hminSome, hmaxSome⟩ : [basket.statistics].filterMap (·.minValue) = [basket.minValue] ∧
        [basket.statistics].filterMap (·.maxValue) = [basket.maxValue] := by
      simp [BasketAccumulator.statistics, nullableDouble, hcount]
    obtain ⟨hminIs, hminLe, hminLe'⟩ :=
      minDouble_spec hminNan (Double.isFinite.not_nan hminFinite)
    obtain ⟨hmaxIs, hmaxGe, hmaxGe'⟩ :=
      maxDouble_spec hmaxNan (Double.isFinite.not_nan hmaxFinite)
    rw [if_pos hcount]
    refine ⟨⟨?_, ?_, hnans, hposInfs, hnegInfs⟩, ⟨?_, ?_⟩, fun hzero => ?_⟩
    · dsimp only
      rw [List.filterMap_append, hmore, hminSome]
      refine BestOf.append_one Int.le_trans Int.le_refl ⟨hminIs, hminLe, hminLe'⟩ ?_ hmin
      intro hzero
      rw [(hstart hzero).1]
      exact minDouble_posInf hminFinite
    · dsimp only
      rw [List.filterMap_append, hmore, hmaxSome]
      refine BestOf.append_one (fun hab hbc => Int.le_trans hbc hab) Int.le_refl
        ⟨hmaxIs, hmaxGe, hmaxGe'⟩ ?_ hmax
      intro hzero
      rw [(hstart hzero).2]
      exact maxDouble_negInf hmaxFinite
    · rcases hminIs with heq | heq <;> dsimp only <;> rw [heq]
      · exact hminNan
      · exact Double.isFinite.not_nan hminFinite
    · rcases hmaxIs with heq | heq <;> dsimp only <;> rw [heq]
      · exact hmaxNan
      · exact Double.isFinite.not_nan hmaxFinite
    · dsimp only at hzero
      omega
  · obtain ⟨hminNone, hmaxNone⟩ : [basket.statistics].filterMap (·.minValue) = [] ∧
        [basket.statistics].filterMap (·.maxValue) = [] := by
      simp [BasketAccumulator.statistics, nullableDouble, hcount]
    rw [if_neg hcount]
    refine ⟨⟨?_, ?_, hnans, hposInfs, hnegInfs⟩, ⟨hminNan, hmaxNan⟩, hstart⟩
    · rw [List.filterMap_append, hminNone, List.append_nil]
      exact hmin
    · rw [List.filterMap_append, hmaxNone, List.append_nil]
      exact hmax

/-- **A file row adds up the rows of its baskets.** -/
theorem fileStatistics_addsUp {baskets : List BasketAccumulator}
    (h : ∀ basket ∈ baskets, basket.FiniteExtremes) :
    (fileStatistics baskets).AddsUp (baskets.map (·.statistics)) := by
  have hall : (baskets.foldl FileStatistics.addBasket {}).AddsUp
      (baskets.map (·.statistics)) := by
    induction baskets using List.reverseRecOn with
    | nil => exact FileStatistics.AddsUp.nil
    | append_singleton baskets basket ih =>
      rw [List.foldl_append, List.map_append]
      refine (ih fun b hb => h b (List.mem_append_left _ hb)).addBasket ?_
      exact h basket (List.mem_append_right _ List.mem_cons_self)
  exact hall.row

/-! ### The Bloom column -/

theorem accumulate_bloom (bloom : RootBloomBuilder) (values : List RootPrimitiveValue) :
    (accumulate bloom true values).bloom = (doubles values).foldl RootBloomBuilder.add bloom := by
  induction values using List.reverseRecOn with
  | nil => rfl
  | append_singleton values value ih =>
    unfold accumulate doubles at ih ⊢
    rw [List.foldl_append, List.map_append, List.foldl_append, ← ih]
    generalize List.foldl _ _ values = basket
    simp only [List.foldl_cons, List.foldl_nil, List.map_cons, List.map_nil, BasketAccumulator.add]
    rw [if_neg (by decide)]
    rcases Double.classify value.asDouble with hfinite | hinf | hnan
    · have hinf := Double.isFinite.not_inf hfinite
      rw [if_neg (by simp [Double.isFinite.not_nan hfinite]), if_neg (by simp [hinf])]
    · rw [if_neg (by simp [Double.isInf.not_nan hinf]), if_pos hinf,
        RootBloomBuilder.add_of_not_finite _ (Double.isInf.not_finite hinf)]
      split <;> rfl
    · rw [if_pos hnan, RootBloomBuilder.add_of_not_finite _ (Double.isNaN.not_finite hnan)]

/-- A builder keeps the hashes of the finite values it was given. -/
theorem foldl_add_keeps {bloom : RootBloomBuilder} {given : List UInt64}
    (h : bloom.Keeps given) (values : List Double) :
    ∃ all, (values.foldl RootBloomBuilder.add bloom).Keeps all ∧ (∀ hash ∈ given, hash ∈ all) ∧
      ∀ x ∈ values, x.isFinite = true → canonicalDoubleHash x ∈ all := by
  induction values generalizing bloom given with
  | nil => exact ⟨given, h, fun _ hmem => hmem, fun x hx => by cases hx⟩
  | cons value values ih =>
    by_cases hfinite : value.isFinite = true
    · obtain ⟨all, hkeeps, hgiven, hvalues⟩ := ih (h.add hfinite)
      refine ⟨all, hkeeps, fun hash hmem => hgiven hash (List.mem_cons_of_mem _ hmem), ?_⟩
      intro x hx hxFinite
      rcases List.mem_cons.mp hx with rfl | hx
      · exact hgiven _ List.mem_cons_self
      · exact hvalues x hx hxFinite
    · rw [Bool.not_eq_true] at hfinite
      obtain ⟨all, hkeeps, hgiven, hvalues⟩ := ih h
      rw [List.foldl_cons, RootBloomBuilder.add_of_not_finite _ hfinite]
      refine ⟨all, hkeeps, hgiven, ?_⟩
      intro x hx hxFinite
      rcases List.mem_cons.mp hx with rfl | hx
      · rw [hfinite] at hxFinite
        cases hxFinite
      · exact hvalues x hx hxFinite

/-- A fresh builder of the given capacity. -/
def freshBloom (maxPayloadBytes : UInt32) (sizing : BloomSizing) : RootBloomBuilder where
  maxPayloadBytes := maxPayloadBytes
  sizing := sizing

/-- A builder without capacity stays as it is. -/
theorem foldl_add_of_disabled {bloom : RootBloomBuilder} (h : bloom.maxPayloadBytes = 0)
    (values : List Double) : values.foldl RootBloomBuilder.add bloom = bloom := by
  induction values with
  | nil => rfl
  | cons value values ih =>
    have hsame : bloom.add value = bloom := if_pos (by simp [h])
    rw [List.foldl_cons, hsame]
    exact ih

theorem freshBloom_keeps {maxPayloadBytes : UInt32} {sizing : BloomSizing}
    (h : maxPayloadBytes ≠ 0) : (freshBloom maxPayloadBytes sizing).Keeps [] where
  enabled := h
  buffered _ _ hmem := absurd hmem List.not_mem_nil
  streaming hbits := absurd rfl hbits

/-- A constant with the key of a finite value that was added is not rejected. -/
theorem serialize_foldl_add_mayContain (maxPayloadBytes : UInt32) (sizing : BloomSizing)
    {values : List Double} {x constant : Double} (hx : x ∈ values) (hfinite : x.isFinite = true)
    (hconstant : constant.isNaN = false) (hkey : constant.key = x.key) :
    mayContain (values.foldl RootBloomBuilder.add (freshBloom maxPayloadBytes sizing)).serialize
      constant = true := by
  by_cases hzero : maxPayloadBytes = 0
  · -- The payload is empty, and an empty payload rejects nothing.
    rw [foldl_add_of_disabled hzero]
    rfl
  · obtain ⟨all, hkeeps, -, hvalues⟩ := foldl_add_keeps (freshBloom_keeps hzero) values
    apply hkeeps.mayContain
    rw [canonicalDoubleHash_congr hconstant (Double.isFinite.not_nan hfinite) hkey]
    exact hvalues x hx hfinite

/-- **A Bloom filter has no false negatives**: whatever the capacity, the sizes and the
    values added, every constant that equals a finite one of them may be contained. -/
theorem mayContain_of_added (maxPayloadBytes : UInt32) (sizing : BloomSizing)
    (values : List Double) {x constant : Double} (hx : x ∈ values) (hfinite : x.isFinite = true)
    (hequal : constant.eq x = true) :
    mayContain (values.foldl RootBloomBuilder.add (freshBloom maxPayloadBytes sizing)).serialize
      constant = true := by
  have hfacts := hequal
  simp only [Double.eq, Bool.and_eq_true, Bool.not_eq_true', decide_eq_true_eq] at hfacts
  obtain ⟨⟨hconstant, -⟩, hkey⟩ := hfacts
  exact serialize_foldl_add_mayContain maxPayloadBytes sizing hx hfinite hconstant hkey

/-- Sixteen bytes buffer two hashes; the third value starts the streaming payload, and the
    negative zero is found under the positive one. -/
theorem negative_zero_may_be_contained :
    mayContain ([Double.zero, Double.ofInt 7, Double.ofInt 7, Double.ofInt 9].foldl
      RootBloomBuilder.add (freshBloom 16 ⟨fun _ => 40, fun _ _ => 5, 3⟩)).serialize
        ⟨0x8000000000000000⟩ = true :=
  mayContain_of_added 16 ⟨fun _ => 40, fun _ _ => 5, 3⟩ _ List.mem_cons_self (by decide) (by decide)

/-- **The Bloom column rejects no value of the basket**, nor a constant equal to one. -/
theorem bloomFilter_mayContain {maxPayloadBytes : UInt32} {sizing : BloomSizing}
    {values : List RootPrimitiveValue} {bytes : List UInt8}
    (hbytes : (accumulate (freshBloom maxPayloadBytes sizing) true values).bloomFilter true =
      some bytes)
    {x constant : Double} (hx : x ∈ doubles values) (hfinite : x.isFinite = true)
    (hconstant : constant.isNaN = false) (hkey : constant.key = x.key) :
    mayContain bytes constant = true := by
  have hserialized : (accumulate (freshBloom maxPayloadBytes sizing) true values).bloom.serialize =
      bytes := by
    unfold BasketAccumulator.bloomFilter at hbytes
    rw [if_pos rfl] at hbytes
    split at hbytes
    next => cases hbytes
    next => exact Option.some.inj hbytes
  rw [← hserialized, accumulate_bloom]
  exact serialize_foldl_add_mayContain maxPayloadBytes sizing hx hfinite hconstant hkey

end RootLake.Index

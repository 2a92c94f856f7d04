/-
  RootLake/Serialized/BasketLookup.lean
  =====================================
  **Finding the basket of an entry.**

  A branch knows the first entry of each of its baskets; the last basket ends with the
  branch.  Baskets that were closed without an entry share their first entry with the next
  one.  The serialized reader looks the basket of an entry up by halving, while the index
  builder walks over the table, leaves empty baskets out and cuts the last one at the end
  of the tree.

  The lookup returns the one basket that holds the entry (`resolveSerializedBasket_iff`), which
  is the row of the index that holds it (`mem_prepareBaskets_iff`).
-/
import RootLake.Lib.Search
import RootLake.Dataset.EventZonemap

namespace RootLake.Serialized

open Dataset Search

/-! ### The table of a branch -/

/-- What ROOT says about the baskets of a branch.  The table has room for more baskets than are
    written, and is missing in a branch without baskets. -/
structure TBranch where
  writeBasket : Int
  basketEntry : Option (List Int64)
  entries : Int64
  fits : ∀ table, basketEntry = some table → writeBasket + 1 ≤ table.length

namespace TBranch

def basketCount (branch : TBranch) : Int := branch.writeBasket + 1

/-- The first entries of the baskets, where there is one. -/
def firstEntries (branch : TBranch) : Option (List Int64) :=
  if branch.basketCount ≤ 0 then none
  else branch.basketEntry.map fun table => table.take branch.basketCount.toNat

def table (branch : TBranch) : List Int64 := branch.firstEntries.getD []

end TBranch

/-- `std::max<Long64_t>(0, value)` as an entry number. -/
def clampEntry (value : Int64) : UInt64 := if 0 < value then value.toUInt64 else 0

theorem toNat_clampEntry (value : Int64) : (clampEntry value).toNat = value.toInt.toNat := by
  unfold clampEntry
  split
  next hpos => exact Int64.toNat_toUInt64_of_le (Int64.le_of_lt hpos)
  next hneg =>
    rw [Int64.lt_iff_toInt_lt] at hneg
    have hzero : (0 : Int64).toInt = 0 := rfl
    have hword : (0 : UInt64).toNat = 0 := rfl
    omega

theorem clampEntry_of_nonneg {value : Int64} (h : 0 ≤ value) :
    clampEntry value = value.toUInt64 := by
  rw [← UInt64.toNat_inj, toNat_clampEntry, Int64.toNat_toUInt64_of_le h]
  rfl

/-- A word as a signed number. -/
theorem toInt_toInt64 {entry : UInt64} (h : entry.toNat < 2 ^ 63) :
    entry.toInt64.toInt = entry.toNat := by
  change entry.toBitVec.toInt = (entry.toBitVec.toNat : Int)
  rw [BitVec.toInt_eq_toNat_cond, if_pos]
  change 2 * entry.toNat < 2 ^ 64
  omega

/-! ### The lookup -/

structure SerializedBasketRange where
  number : Nat
  entryBegin : UInt64
  entryEnd : UInt64
  deriving DecidableEq, Repr

def SerializedBasketRange.contains (range : SerializedBasketRange) (entry : UInt64) : Prop :=
  range.entryBegin ≤ entry ∧ entry < range.entryEnd

instance (range : SerializedBasketRange) (entry : UInt64) : Decidable (range.contains entry) :=
  inferInstanceAs (Decidable (_ ∧ _))

/-- `ResolveSerializedBasket`, with the failure reason as its error. -/
def resolveSerializedBasket (branch : TBranch) (entry : UInt64) :
    Except String SerializedBasketRange :=
  match branch.firstEntries with
  | none => .error "physical branch has no basket entry map"
  | some basketEntries =>
      let upper := partitionPoint (fun first => decide (entry.toInt64 < first)) basketEntries
      let basketNumber := upper - 1
      match basketEntries[basketNumber]? with
      | none => .error "entry is outside physical basket map"
      | some first =>
          let basketBegin := clampEntry first
          let basketEnd := clampEntry (basketEntries[basketNumber + 1]?.getD branch.entries)
          if entry < basketBegin || basketEnd ≤ entry then
            .error "entry does not belong to resolved physical basket"
          else .ok ⟨basketNumber, basketBegin, basketEnd⟩

/-- The range is that of a basket of the branch, which may be empty. -/
def SerializedBasketRange.IsBasket (range : SerializedBasketRange) (branch : TBranch) : Prop :=
  ∃ first, branch.table[range.number]? = some first ∧ range.entryBegin = clampEntry first ∧
    range.entryEnd = clampEntry (branch.table[range.number + 1]?.getD branch.entries)

/-- The number decides the range. -/
theorem SerializedBasketRange.IsBasket.eq_of_number {branch : TBranch}
    {range other : SerializedBasketRange} (h : range.IsBasket branch)
    (hother : other.IsBasket branch) (hnumber : range.number = other.number) : range = other := by
  obtain ⟨number, entryBegin, entryEnd⟩ := range
  obtain ⟨number', entryBegin', entryEnd'⟩ := other
  obtain ⟨first, hfirst, hbegin, hend⟩ := h
  obtain ⟨first', hfirst', hbegin', hend'⟩ := hother
  dsimp only at *
  subst hnumber
  rw [hfirst] at hfirst'
  rw [hbegin, hend, hbegin', hend', Option.some.inj hfirst']

section

variable {branch : TBranch} {entry : UInt64} {range : SerializedBasketRange}

theorem resolveSerializedBasket_sound (h : resolveSerializedBasket branch entry = .ok range) :
    range.IsBasket branch ∧ range.contains entry := by
  unfold resolveSerializedBasket at h
  split at h
  next => cases h
  next basketEntries hentries =>
    have htable : branch.table = basketEntries := by
      rw [TBranch.table, hentries]
      rfl
    dsimp only at h
    split at h
    next => cases h
    next first hfirst =>
      split at h
      next => cases h
      next hcontains =>
        cases h
        simp only [Bool.or_eq_true, decide_eq_true_eq, not_or, UInt64.not_lt, UInt64.not_le]
          at hcontains
        refine ⟨⟨first, ?_, rfl, ?_⟩, hcontains⟩
        · rw [htable]
          exact hfirst
        · rw [htable]

/-- The numbers in a basket that is not empty fit a signed word. -/
theorem contains_bounds {first next : Int64} (hbegin : range.entryBegin = clampEntry first)
    (hend : range.entryEnd = clampEntry next) (h : range.contains entry) :
    entry.toNat < 2 ^ 63 ∧ first.toInt ≤ entry.toNat ∧ (entry.toNat : Int) < next.toInt := by
  obtain ⟨hlow, hhigh⟩ := h
  rw [hbegin, UInt64.le_iff_toNat_le, toNat_clampEntry] at hlow
  rw [hend, UInt64.lt_iff_toNat_lt, toNat_clampEntry] at hhigh
  have hfits := next.toInt_lt
  omega

/-- Where the search stops: in front of the first basket that starts behind the entry. -/
theorem partitionPoint_table (hordered : branch.table.Pairwise (· ≤ ·))
    (hfits : entry.toNat < 2 ^ 63) :
    partitionPoint (fun first => decide (entry.toInt64 < first)) branch.table ≤
        branch.table.length ∧
      ∀ i first, branch.table[i]? = some first → ((entry.toNat : Int) < first.toInt ↔
        partitionPoint (fun first => decide (entry.toInt64 < first)) branch.table ≤ i) := by
  have hmono : branch.table.Pairwise fun a b =>
      decide (entry.toInt64 < a) = true → decide (entry.toInt64 < b) = true := by
    refine hordered.imp ?_
    intro a b hab ha
    exact decide_eq_true (Int64.lt_of_lt_of_le (of_decide_eq_true ha) hab)
  obtain ⟨hle, hiff⟩ := partitionPoint_spec hmono
  refine ⟨hle, ?_⟩
  intro i first hfirst
  rw [← hiff i first hfirst, decide_eq_true_eq, Int64.lt_iff_toInt_lt, toInt_toInt64 hfits]

/-- The search stops behind the basket that holds the entry. -/
theorem partitionPoint_of_contains (hordered : branch.table.Pairwise (· ≤ ·))
    (hbasket : range.IsBasket branch) (hcontains : range.contains entry) :
    partitionPoint (fun first => decide (entry.toInt64 < first)) branch.table =
      range.number + 1 := by
  obtain ⟨first, hfirst, hbegin, hend⟩ := hbasket
  obtain ⟨hfits, hlow, hhigh⟩ := contains_bounds hbegin hend hcontains
  obtain ⟨hle, hiff⟩ := partitionPoint_table hordered hfits
  have hbehind := hiff range.number first hfirst
  cases hnext : branch.table[range.number + 1]? with
  | none =>
    have hlength := List.getElem?_eq_none_iff.mp hnext
    omega
  | some next =>
    have hstop := hiff (range.number + 1) next hnext
    rw [hnext, Option.getD_some] at hhigh
    omega

/-- **The lookup is exact**: it returns the basket that holds the entry, and nothing else. -/
theorem resolveSerializedBasket_iff (hordered : branch.table.Pairwise (· ≤ ·)) :
    resolveSerializedBasket branch entry = .ok range ↔
      range.IsBasket branch ∧ range.contains entry := by
  constructor
  · exact resolveSerializedBasket_sound
  · rintro ⟨hbasket, hcontains⟩
    have hupper := partitionPoint_of_contains hordered hbasket hcontains
    obtain ⟨first, hfirst, hbegin, hend⟩ := hbasket
    cases hentries : branch.firstEntries with
    | none =>
      rw [TBranch.table, hentries] at hfirst
      cases hfirst
    | some basketEntries =>
      have htable : branch.table = basketEntries := by
        rw [TBranch.table, hentries]
        rfl
      rw [htable] at hupper hfirst hend
      unfold resolveSerializedBasket
      rw [hentries]
      dsimp only
      rw [hupper, Nat.add_sub_cancel, hfirst]
      dsimp only
      rw [← hbegin, ← hend, if_neg]
      simp only [Bool.or_eq_true, decide_eq_true_eq, not_or, UInt64.not_lt, UInt64.not_le]
      exact hcontains

/-- From the first entry of the first basket to the end of the last one. -/
def Covered (branch : TBranch) (entry : UInt64) : Prop :=
  ∃ first last, branch.table.head? = some first ∧ branch.table.getLast? = some last ∧
    clampEntry first ≤ entry ∧ (entry < clampEntry last ∨ entry < clampEntry branch.entries)

theorem toInt_le_of_ordered {table : List Int64} (hordered : table.Pairwise (· ≤ ·))
    {i j : Nat} (hij : i ≤ j) {a b : Int64} (ha : table[i]? = some a) (hb : table[j]? = some b) :
    a.toInt ≤ b.toInt := by
  rcases Nat.lt_or_eq_of_le hij with hlt | rfl
  · obtain ⟨hi, rfl⟩ := List.getElem?_eq_some_iff.mp ha
    obtain ⟨hj, rfl⟩ := List.getElem?_eq_some_iff.mp hb
    exact Int64.le_iff_toInt_le.mp (List.pairwise_iff_getElem.mp hordered i j hi hj hlt)
  · rw [ha] at hb
    cases hb
    exact Int.le_refl _

/-- Every basket lies in the covered range. -/
theorem covered_of_isBasket (hordered : branch.table.Pairwise (· ≤ ·))
    (hbasket : range.IsBasket branch) (hcontains : range.contains entry) :
    Covered branch entry := by
  obtain ⟨own, hown, hbegin, hend⟩ := hbasket
  obtain ⟨-, hlow, hhigh⟩ := contains_bounds hbegin hend hcontains
  obtain ⟨hlength, -⟩ := List.getElem?_eq_some_iff.mp hown
  have hhead : branch.table[0]? = some (branch.table[0]) := List.getElem?_eq_getElem (by omega)
  have hlast : branch.table[branch.table.length - 1]? =
      some (branch.table[branch.table.length - 1]) := List.getElem?_eq_getElem (by omega)
  have hfirst := toInt_le_of_ordered hordered (Nat.zero_le _) hhead hown
  refine ⟨_, _, List.head?_eq_getElem?.trans hhead, List.getLast?_eq_getElem?.trans hlast, ?_, ?_⟩
  · rw [UInt64.le_iff_toNat_le, toNat_clampEntry]
    omega
  · rw [UInt64.lt_iff_toNat_lt, UInt64.lt_iff_toNat_lt, toNat_clampEntry, toNat_clampEntry]
    cases hnext : branch.table[range.number + 1]? with
    | none =>
      rw [hnext, Option.getD_none] at hhigh
      omega
    | some next =>
      rw [hnext, Option.getD_some] at hhigh
      obtain ⟨hnumber, -⟩ := List.getElem?_eq_some_iff.mp hnext
      have hbehind := toInt_le_of_ordered hordered (by omega) hnext hlast
      omega

/-- Every entry of the covered range lies in a basket: the one before the first that starts
    behind the entry. -/
theorem exists_basket_of_covered (hordered : branch.table.Pairwise (· ≤ ·))
    (h : Covered branch entry) :
    ∃ range : SerializedBasketRange, range.IsBasket branch ∧ range.contains entry := by
  obtain ⟨first, last, hhead, hlast, hlow, hhigh⟩ := h
  rw [List.head?_eq_getElem?] at hhead
  rw [List.getLast?_eq_getElem?] at hlast
  rw [UInt64.le_iff_toNat_le, toNat_clampEntry] at hlow
  rw [UInt64.lt_iff_toNat_lt, UInt64.lt_iff_toNat_lt, toNat_clampEntry, toNat_clampEntry] at hhigh
  have hlastFits := last.toInt_lt
  have hentriesFit := branch.entries.toInt_lt
  have hfits : entry.toNat < 2 ^ 63 := by omega
  obtain ⟨hle, hiff⟩ := partitionPoint_table hordered hfits
  generalize partitionPoint _ branch.table = upper at hle hiff
  have hpos := hiff 0 first hhead
  obtain ⟨hlength, -⟩ := List.getElem?_eq_some_iff.mp hhead
  have hindex : upper - 1 < branch.table.length := by omega
  obtain ⟨own, hown⟩ : ∃ own, branch.table[upper - 1]? = some own :=
    ⟨_, List.getElem?_eq_getElem hindex⟩
  have hbefore := hiff (upper - 1) own hown
  refine ⟨⟨upper - 1, clampEntry own, clampEntry (branch.table[upper - 1 + 1]?.getD
    branch.entries)⟩, ⟨own, hown, rfl, rfl⟩, ?_, ?_⟩
  · rw [UInt64.le_iff_toNat_le, toNat_clampEntry]
    omega
  · rw [Nat.sub_add_cancel (by omega), UInt64.lt_iff_toNat_lt, toNat_clampEntry]
    cases hnext : branch.table[upper]? with
    | none =>
      have hlength := List.getElem?_eq_none_iff.mp hnext
      have hlastOwn : upper - 1 = branch.table.length - 1 := by omega
      rw [hlastOwn, hlast] at hown
      rw [hlastOwn, ← Option.some.inj hown] at hbefore
      rw [Option.getD_none]
      omega
    | some next =>
      have hbehind := hiff upper next hnext
      rw [Option.getD_some]
      omega

end

/-! ### The rows of the index -/

/-- A basket row with the number of its basket. -/
structure NumberedRange (totalEntries : UInt64) where
  basketId : Nat
  range : BasketRange totalEntries

/-- The loop over the baskets in `PreparePath`. -/
def prepareFrom (totalEntries : UInt64) : Nat → List UInt64 → List (NumberedRange totalEntries)
  | _, [] => []
  | basketId, entryBegin :: rest =>
      let entryEnd := stdMin (rest.head?.getD totalEntries) totalEntries
      if h : entryBegin.toNat < entryEnd.toNat then
        ⟨basketId, entryBegin, entryEnd, h, basketEnd_le totalEntries rest⟩ ::
          prepareFrom totalEntries (basketId + 1) rest
      else prepareFrom totalEntries (basketId + 1) rest

/-- The baskets `PreparePath` makes of a branch. -/
def prepareBaskets (branch : TBranch) (name : String) (totalEntries : UInt64) :
    Except String (List (NumberedRange totalEntries)) :=
  match branch.firstEntries with
  | none => .error ("Physical branch has no persistent baskets: " ++ name)
  | some basketEntries =>
      .ok (prepareFrom totalEntries 0 (basketEntries.map Int64.toUInt64))

/-- **The rows of the table**: every basket that holds entries of the tree, under its number. -/
theorem mem_prepareFrom {totalEntries : UInt64} {row : NumberedRange totalEntries}
    (basketEntries : List UInt64) :
    ∀ basketId, row ∈ prepareFrom totalEntries basketId basketEntries ↔
      ∃ i, row.basketId = basketId + i ∧ basketEntries[i]? = some row.range.entryBegin ∧
        row.range.entryEnd = stdMin (basketEntries[i + 1]?.getD totalEntries) totalEntries := by
  induction basketEntries with
  | nil => intro _; simp [prepareFrom]
  | cons entryBegin rest ih =>
    intro basketId
    -- The first basket of the table is the one with offset zero.
    have hsplit : (∃ i, row.basketId = basketId + i ∧
        (entryBegin :: rest)[i]? = some row.range.entryBegin ∧
          row.range.entryEnd =
            stdMin ((entryBegin :: rest)[i + 1]?.getD totalEntries) totalEntries) ↔
        (row.basketId = basketId ∧ entryBegin = row.range.entryBegin ∧
          row.range.entryEnd = stdMin (rest.head?.getD totalEntries) totalEntries) ∨
        ∃ i, row.basketId = basketId + 1 + i ∧ rest[i]? = some row.range.entryBegin ∧
          row.range.entryEnd = stdMin (rest[i + 1]?.getD totalEntries) totalEntries := by
      constructor
      · rintro ⟨_ | i, hid, hbegin, hend⟩
        · rw [List.head?_eq_getElem?]
          exact Or.inl ⟨hid, Option.some.inj hbegin, hend⟩
        · exact Or.inr ⟨i, by omega, hbegin, hend⟩
      · rintro (⟨hid, hbegin, hend⟩ | ⟨i, hid, hbegin, hend⟩)
        · rw [List.head?_eq_getElem?] at hend
          exact ⟨0, hid, congrArg some hbegin, hend⟩
        · exact ⟨i + 1, by omega, hbegin, hend⟩
    rw [hsplit, ← ih (basketId + 1), prepareFrom]
    split
    next hnonempty =>
      rw [List.mem_cons]
      refine or_congr_left ?_
      obtain ⟨id, rowBegin, rowEnd, hrow, hfits⟩ := row
      simp only [NumberedRange.mk.injEq, BasketRange.mk.injEq]
      exact and_congr_right fun _ => and_congr_left fun _ => eq_comm
    next hempty =>
      refine (or_iff_right ?_).symm
      rintro ⟨-, rfl, hend⟩
      have hproper := row.range.nonempty
      rw [hend] at hproper
      exact hempty hproper

/-- What ROOT sees to in a tree it has written: the first entries of baskets are numbers of
    entries, and the branch has the entries of the tree. -/
structure TBranch.InTree (branch : TBranch) (totalEntries : UInt64) : Prop where
  nonneg : ∀ first ∈ branch.table, 0 ≤ first
  entries : totalEntries = clampEntry branch.entries

/-- The part of a range that lies in the tree. -/
def SerializedBasketRange.clipped (range : SerializedBasketRange) (totalEntries : UInt64) :
    SerializedBasketRange :=
  { range with entryEnd := stdMin range.entryEnd totalEntries }

/-- The row as a range of the reader. -/
def NumberedRange.serialized {totalEntries : UInt64} (row : NumberedRange totalEntries) :
    SerializedBasketRange :=
  ⟨row.basketId, row.range.entryBegin, row.range.entryEnd⟩

theorem stdMin_clampEntry {branch : TBranch} {totalEntries : UInt64}
    (htree : branch.InTree totalEntries) (i : Nat) :
    stdMin ((branch.table.map Int64.toUInt64)[i]?.getD totalEntries) totalEntries =
      stdMin (clampEntry (branch.table[i]?.getD branch.entries)) totalEntries := by
  rw [List.getElem?_map]
  cases hnext : branch.table[i]? with
  | none =>
    rw [Option.map_none, Option.getD_none, Option.getD_none, ← htree.entries]
  | some next =>
    have hnonneg := htree.nonneg next (List.mem_of_getElem? hnext)
    rw [Option.map_some, Option.getD_some, Option.getD_some, clampEntry_of_nonneg hnonneg]

section

variable {branch : TBranch} {totalEntries : UInt64} {rows : List (NumberedRange totalEntries)}

/-- The rows of a branch are its baskets, as far as they lie in the tree and hold an entry. -/
theorem mem_prepareBaskets_iff (htree : branch.InTree totalEntries) {name : String}
    (hrows : prepareBaskets branch name totalEntries = .ok rows)
    {row : NumberedRange totalEntries} :
    row ∈ rows ↔ ∃ range : SerializedBasketRange, range.IsBasket branch ∧
      row.serialized = range.clipped totalEntries := by
  unfold prepareBaskets at hrows
  split at hrows
  next => cases hrows
  next basketEntries hentries =>
    have htable : basketEntries = branch.table := by
      rw [TBranch.table, hentries]
      rfl
    cases hrows
    rw [htable, mem_prepareFrom]
    constructor
    · rintro ⟨i, hid, hbegin, hend⟩
      rw [stdMin_clampEntry htree] at hend
      rw [List.getElem?_map, Option.map_eq_some_iff] at hbegin
      obtain ⟨first, hfirst, hbegin⟩ := hbegin
      have hnonneg := htree.nonneg first (List.mem_of_getElem? hfirst)
      rw [← clampEntry_of_nonneg hnonneg] at hbegin
      refine ⟨⟨i, clampEntry first, clampEntry (branch.table[i + 1]?.getD branch.entries)⟩,
        ⟨first, hfirst, rfl, rfl⟩, ?_⟩
      rw [NumberedRange.serialized, hid, Nat.zero_add, ← hbegin, hend]
      rfl
    · rintro ⟨⟨number, entryBegin, entryEnd⟩, ⟨first, hfirst, hbegin, hend⟩, hrow⟩
      have hnonneg := htree.nonneg first (List.mem_of_getElem? hfirst)
      simp only [NumberedRange.serialized, SerializedBasketRange.clipped,
        SerializedBasketRange.mk.injEq] at hrow hfirst hbegin hend
      obtain ⟨hid, hrowBegin, hrowEnd⟩ := hrow
      refine ⟨number, by omega, ?_, ?_⟩
      · rw [List.getElem?_map, hfirst, hrowBegin, hbegin, clampEntry_of_nonneg hnonneg]
        rfl
      · rw [hrowEnd, hend, ← stdMin_clampEntry htree]

theorem contains_clipped {range : SerializedBasketRange} {entry : UInt64} :
    (range.clipped totalEntries).contains entry ↔
      range.contains entry ∧ entry < totalEntries := by
  simp only [SerializedBasketRange.contains, SerializedBasketRange.clipped,
    UInt64.le_iff_toNat_le, UInt64.lt_iff_toNat_lt, toNat_stdMin]
  omega

/-- A basket that holds an entry of the tree has a row. -/
theorem exists_row_of_isBasket (htree : branch.InTree totalEntries) {name : String}
    (hrows : prepareBaskets branch name totalEntries = .ok rows) {range : SerializedBasketRange}
    {entry : UInt64} (hbasket : range.IsBasket branch) (hcontains : range.contains entry)
    (hentry : entry < totalEntries) :
    ∃ row ∈ rows, row.serialized = range.clipped totalEntries := by
  have hclipped := contains_clipped.mpr ⟨hcontains, hentry⟩
  simp only [SerializedBasketRange.contains, UInt64.le_iff_toNat_le,
    UInt64.lt_iff_toNat_lt] at hclipped
  have hproper : range.entryBegin.toNat < (stdMin range.entryEnd totalEntries).toNat :=
    Nat.lt_of_le_of_lt hclipped.1 hclipped.2
  have hfits : (stdMin range.entryEnd totalEntries).toNat ≤ totalEntries.toNat := by
    rw [toNat_stdMin]
    exact Nat.min_le_right _ _
  let row : NumberedRange totalEntries :=
    ⟨range.number, range.entryBegin, stdMin range.entryEnd totalEntries, hproper, hfits⟩
  exact ⟨row, (mem_prepareBaskets_iff htree hrows).mpr ⟨range, hbasket, rfl⟩, rfl⟩

/-- Where no basket starts behind the branch, no basket ends behind the tree. -/
theorem clipped_of_inBranch (htree : branch.InTree totalEntries)
    (hinBranch : ∀ first ∈ branch.table, first ≤ branch.entries) {range : SerializedBasketRange}
    (hbasket : range.IsBasket branch) : range.clipped totalEntries = range := by
  obtain ⟨number, entryBegin, entryEnd⟩ := range
  obtain ⟨first, -, -, hend⟩ := hbasket
  have hle : entryEnd.toNat ≤ totalEntries.toNat := by
    rw [show entryEnd = _ from hend, htree.entries, toNat_clampEntry, toNat_clampEntry]
    cases hnext : branch.table[number + 1]? with
    | none => exact Nat.le_refl _
    | some next =>
      have hbound := Int64.le_iff_toInt_le.mp (hinBranch next (List.mem_of_getElem? hnext))
      rw [Option.getD_some]
      omega
  have hmin : stdMin entryEnd totalEntries = entryEnd := by
    rw [← UInt64.toNat_inj, toNat_stdMin]
    exact Nat.min_eq_left hle
  rw [SerializedBasketRange.clipped, hmin]

end

/-! ### Reader and index -/

/-- **Basket lookup is exact.**  Over an ordered table the lookup of an entry succeeds just when
    the entry lies in the covered range.  What it returns is a basket of the table that holds
    the entry, and the only one.  In a tree as ROOT writes it, the row of the index that holds
    an entry is what the lookup returns, as far as it lies in the tree, and where no basket
    starts behind the branch that is all of it. -/
theorem resolveSerializedBasket_exact (branch : TBranch)
    (hordered : branch.table.Pairwise (· ≤ ·)) (entry : UInt64) :
    ((∃ range, resolveSerializedBasket branch entry = .ok range) ↔ Covered branch entry) ∧
    (∀ range, resolveSerializedBasket branch entry = .ok range →
      range.IsBasket branch ∧ range.contains entry ∧
        ∀ other : SerializedBasketRange, other.IsBasket branch → other.contains entry →
          other = range) ∧
    ∀ (name : String) (totalEntries : UInt64), branch.InTree totalEntries →
      ∀ rows, prepareBaskets branch name totalEntries = .ok rows →
        (∀ row ∈ rows, row.serialized.contains entry →
          ∃ range, resolveSerializedBasket branch entry = .ok range ∧
            row.serialized = range.clipped totalEntries) ∧
        (∀ range, resolveSerializedBasket branch entry = .ok range → entry < totalEntries →
          ∃ row ∈ rows, row.serialized = range.clipped totalEntries) ∧
        ((∀ first ∈ branch.table, first ≤ branch.entries) →
          ∀ range, resolveSerializedBasket branch entry = .ok range →
            entry < totalEntries ∧ range.clipped totalEntries = range) := by
  refine ⟨⟨?_, ?_⟩, ?_, ?_⟩
  · rintro ⟨range, hresolve⟩
    obtain ⟨hbasket, hcontains⟩ := resolveSerializedBasket_sound hresolve
    exact covered_of_isBasket hordered hbasket hcontains
  · intro hcovered
    obtain ⟨range, hrange⟩ := exists_basket_of_covered hordered hcovered
    exact ⟨range, (resolveSerializedBasket_iff hordered).mpr hrange⟩
  · intro range hresolve
    obtain ⟨hbasket, hcontains⟩ := resolveSerializedBasket_sound hresolve
    refine ⟨hbasket, hcontains, ?_⟩
    intro other hother hholds
    have hsame := (resolveSerializedBasket_iff hordered).mpr ⟨hother, hholds⟩
    rw [hresolve] at hsame
    exact (Except.ok.inj hsame).symm
  · intro name totalEntries htree rows hrows
    refine ⟨?_, ?_, ?_⟩
    · intro row hrow hcontains
      obtain ⟨range, hbasket, hclipped⟩ := (mem_prepareBaskets_iff htree hrows).mp hrow
      rw [hclipped, contains_clipped] at hcontains
      exact ⟨range, (resolveSerializedBasket_iff hordered).mpr ⟨hbasket, hcontains.1⟩, hclipped⟩
    · intro range hresolve hentry
      obtain ⟨hbasket, hcontains⟩ := resolveSerializedBasket_sound hresolve
      exact exists_row_of_isBasket htree hrows hbasket hcontains hentry
    · intro hinBranch range hresolve
      obtain ⟨hbasket, hcontains⟩ := resolveSerializedBasket_sound hresolve
      have hwhole := clipped_of_inBranch htree hinBranch hbasket
      rw [← hwhole, contains_clipped] at hcontains
      exact ⟨hcontains.2, hwhole⟩

/-- Four baskets over 30 entries; the second and the last one are empty. -/
def fourBaskets : TBranch where
  writeBasket := 3
  basketEntry := some [0, 10, 10, 30, 0, 0]
  entries := 30
  fits := by rintro table ⟨⟩; decide

/-- The entry at which two baskets start lies in the second one. -/
theorem fourBaskets_resolve : resolveSerializedBasket fourBaskets 10 = .ok ⟨2, 10, 30⟩ := by
  have hexact := resolveSerializedBasket_exact fourBaskets (by decide) 10
  obtain ⟨range, hresolve⟩ := hexact.1.mpr ⟨0, 30, rfl, rfl, by decide, by decide⟩
  obtain ⟨-, -, hunique⟩ := hexact.2.1 range hresolve
  have hsame := hunique ⟨2, 10, 30⟩ ⟨10, rfl, rfl, rfl⟩ (by decide)
  rw [hresolve, hsame]

/-! ### The basket cache -/

/-- The basket in memory, as its size on disk, with its number and its range. -/
structure SerializedBasketCache where
  basket : Option Int := none
  basketPrepared : Bool := false
  currentBasket : Option Nat := none
  loadedBaskets : UInt64 := 0
  currentBasketEntryBegin : UInt64 := 0
  currentBasketEntryEnd : UInt64 := 0

/-- What a call reports besides its success. -/
structure BasketLoad where
  loadedNewBasket : Bool
  compressedBytes : UInt64
  deriving DecidableEq, Repr

namespace SerializedBasketCache

def current (cache : SerializedBasketCache) (number : Nat) : SerializedBasketRange :=
  ⟨number, cache.currentBasketEntryBegin, cache.currentBasketEntryEnd⟩

/-- `GetBasketBytes`, and the size of the basket where that says nothing. -/
def compressedBytes (basketBytes : Option (List Int)) (number : Nat) (nbytes : Int) : UInt64 :=
  match basketBytes.bind fun bytes => bytes[number]? with
  | some bytes => if 0 < bytes then UInt64.ofNat bytes.toNat else UInt64.ofNat nbytes.toNat
  | none => UInt64.ofNat nbytes.toNat

/-- `LoadBasket` of a cache that is bound to the branch.  `getBasket` is what ROOT answers to
    this call: no basket, or one of the given size. -/
def loadBasket (branch : TBranch) (basketBytes : Option (List Int))
    (getBasket : Nat → Option Int) (cache : SerializedBasketCache) (entry : UInt64) :
    SerializedBasketCache × Except String BasketLoad :=
  if cache.basket.isSome && decide (cache.currentBasketEntryBegin ≤ entry) &&
      decide (entry < cache.currentBasketEntryEnd) then
    (cache, .ok ⟨false, 0⟩)
  else
    match resolveSerializedBasket branch entry with
    | .error reason => (cache, .error reason)
    | .ok range =>
        if cache.currentBasket = some range.number ∧ cache.basket.isSome = true then
          (cache, .ok ⟨false, 0⟩)
        else
          match getBasket range.number with
          | none =>
              ({ cache with basket := none, basketPrepared := false },
                .error "ROOT failed to load/decompress physical basket")
          | some nbytes =>
              ({ basket := some nbytes
                 basketPrepared := false
                 currentBasket := some range.number
                 loadedBaskets := cache.loadedBaskets + 1
                 currentBasketEntryBegin := range.entryBegin
                 currentBasketEntryEnd := range.entryEnd },
                .ok ⟨true, compressedBytes basketBytes range.number nbytes⟩)

/-- A basket in memory is a basket of the branch, under its number and its range. -/
def Holds (cache : SerializedBasketCache) (branch : TBranch) : Prop :=
  cache.basket.isSome = true →
    ∃ number, cache.currentBasket = some number ∧ (cache.current number).IsBasket branch

/-- The basket in memory is the one of the range. -/
structure InMemory (cache : SerializedBasketCache) (range : SerializedBasketRange) : Prop where
  loaded : cache.basket.isSome = true
  number_eq : cache.currentBasket = some range.number
  entryBegin_eq : cache.currentBasketEntryBegin = range.entryBegin
  entryEnd_eq : cache.currentBasketEntryEnd = range.entryEnd

section

variable {branch : TBranch} {basketBytes : Option (List Int)} {getBasket : Nat → Option Int}
variable {cache : SerializedBasketCache} {entry : UInt64}

/-- The step lemma: whatever ROOT answers, the cache keeps what it says about its basket, and a
    call that succeeds leaves the basket that the lookup returns. -/
theorem loadBasket_spec (hordered : branch.table.Pairwise (· ≤ ·)) (h : cache.Holds branch) :
    (cache.loadBasket branch basketBytes getBasket entry).1.Holds branch ∧
      ∀ load, (cache.loadBasket branch basketBytes getBasket entry).2 = .ok load →
        ∃ range, resolveSerializedBasket branch entry = .ok range ∧
          (cache.loadBasket branch basketBytes getBasket entry).1.InMemory range := by
  unfold loadBasket
  split
  next hhit =>
    -- The entry lies in the range of the basket in memory.
    simp only [Bool.and_eq_true, decide_eq_true_eq] at hhit
    obtain ⟨⟨hbasket, hlow⟩, hhigh⟩ := hhit
    refine ⟨h, fun _ _ => ?_⟩
    obtain ⟨number, hnumber, hrange⟩ := h hbasket
    exact ⟨cache.current number, (resolveSerializedBasket_iff hordered).mpr ⟨hrange, hlow, hhigh⟩,
      hbasket, hnumber, rfl, rfl⟩
  next =>
    split
    next => exact ⟨h, fun _ hok => by cases hok⟩
    next range hresolve =>
      obtain ⟨hrange, -⟩ := resolveSerializedBasket_sound hresolve
      split
      next hsame =>
        refine ⟨h, fun _ _ => ⟨range, hresolve, ?_⟩⟩
        obtain ⟨number, hnumber, hcurrent⟩ := h hsame.2
        have hequal := hcurrent.eq_of_number hrange (Option.some.inj (hnumber.symm.trans hsame.1))
        exact ⟨hsame.2, hsame.1, congrArg SerializedBasketRange.entryBegin hequal,
          congrArg SerializedBasketRange.entryEnd hequal⟩
      next =>
        split
        next =>
          refine ⟨fun hnone => ?_, fun _ hok => by cases hok⟩
          cases hnone
        next nbytes hload =>
          exact ⟨fun _ => ⟨range.number, rfl, hrange⟩,
            fun _ _ => ⟨range, hresolve, rfl, rfl, rfl, rfl⟩⟩

/-- Calls one after the other; ROOT may answer each of them differently. -/
def loadBaskets (branch : TBranch) (basketBytes : Option (List Int))
    (cache : SerializedBasketCache) (calls : List ((Nat → Option Int) × UInt64)) :
    SerializedBasketCache :=
  calls.foldl (fun cache call => (cache.loadBasket branch basketBytes call.1 call.2).1) cache

/-- The run lemma, from an empty cache. -/
theorem loadBaskets_holds (hordered : branch.table.Pairwise (· ≤ ·))
    (calls : List ((Nat → Option Int) × UInt64)) :
    (loadBaskets branch basketBytes {} calls).Holds branch := by
  have hrun : ∀ cache : SerializedBasketCache, cache.Holds branch →
      (loadBaskets branch basketBytes cache calls).Holds branch := by
    induction calls with
    | nil => exact fun _ h => h
    | cons call calls ih => exact fun _ h => ih _ (loadBasket_spec hordered h).1
  exact hrun {} (fun hnone => by cases hnone)

/-- **The cache is the lookup**: whatever ROOT has answered to the calls so far, a call that
    succeeds leaves in memory the basket that the lookup returns for its entry. -/
theorem loadBaskets_exact (hordered : branch.table.Pairwise (· ≤ ·))
    (calls : List ((Nat → Option Int) × UInt64)) {load : BasketLoad}
    (hload : ((loadBaskets branch basketBytes {} calls).loadBasket branch basketBytes getBasket
      entry).2 = .ok load) :
    ∃ range, resolveSerializedBasket branch entry = .ok range ∧
      ((loadBaskets branch basketBytes {} calls).loadBasket branch basketBytes getBasket
        entry).1.InMemory range :=
  (loadBasket_spec hordered (loadBaskets_holds hordered calls)).2 load hload

end

/-- A basket is in memory, the next one cannot be read, and then it can. -/
theorem loadBaskets_exact_fourBaskets :
    ((loadBaskets fourBaskets none {} [(fun _ => some 100, 3), (fun _ => none, 12)]).loadBasket
      fourBaskets none (fun _ => some 60) 10).1.InMemory ⟨2, 10, 30⟩ := by
  have hload : ((loadBaskets fourBaskets none {} [(fun _ => some 100, 3),
      (fun _ => none, 12)]).loadBasket fourBaskets none (fun _ => some 60) 10).2 =
      .ok ⟨true, 60⟩ := by decide +kernel
  obtain ⟨range, hresolve, hmemory⟩ := loadBaskets_exact (by decide) _ hload
  have hrange : resolveSerializedBasket fourBaskets 10 = .ok ⟨2, 10, 30⟩ := by decide +kernel
  rw [hrange] at hresolve
  cases hresolve
  exact hmemory

end SerializedBasketCache

end RootLake.Serialized

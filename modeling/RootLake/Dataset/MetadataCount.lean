/-
  RootLake/Dataset/MetadataCount.lean
  ===================================
  **COUNT(\*) from the metadata against the rows of the scan.**

  While a file is indexed, every value of an entry is added to the basket the entry lies in,
  and the counts of the baskets add up to the count of the file row.  A query that needs no
  column and has no filter is answered from the file rows alone; any other one reads the
  baskets, entry by entry.

  Both count the values the reader hands over for the entries of the selected baskets
  (`indexedValues`).  The scan emits more than that only when it repeats a typed page.
-/
import RootLake.Dataset.SharedScan
import RootLake.Dataset.PlanCoverage
import RootLake.Dataset.EventZonemap
import Mathlib.Algebra.BigOperators.Intervals

namespace RootLake.Dataset

open Ieee Index Batch Budget

/-! ### Indexing a path of a file -/

/-- The values of an entry: pages are read until there is none. -/
def handedOver {indexCount : Nat} :
    NumericEntry indexCount → Except IOException (List (DecodedValue indexCount))
  | .none _ => .ok []
  | .serializedValues values => .ok values
  | .paged pages =>
      match pages.after with
      | .failed e => .error e
      | _ => .ok pages.pages.flatten

/-- A basket while its path is indexed. -/
structure IndexedBasket (totalEntries : UInt64) where
  range : BasketRange totalEntries
  basket : BasketAccumulator
  nullCount : Nat := 0

/-- The baskets behind the active one, newest first, and the rest from the active one on. -/
structure PathProgress (totalEntries : UInt64) where
  passed : List (IndexedBasket totalEntries)
  upcoming : List (IndexedBasket totalEntries)

section

variable {indexCount : Nat} {totalEntries : UInt64} (statisticsEnabled : Bool)

/-- `++path.active_basket` while the entry is behind the active basket. -/
def advanceBasket (entry : UInt64) : List (IndexedBasket totalEntries) →
    List (IndexedBasket totalEntries) → PathProgress totalEntries
  | passed, [] => ⟨passed, []⟩
  | passed, basket :: upcoming =>
      if basket.range.entryEnd ≤ entry then advanceBasket entry (basket :: passed) upcoming
      else ⟨passed, basket :: upcoming⟩

/-- The values of an entry are added one by one; an entry without an object is counted as
    null. -/
def IndexedBasket.addEntry (basket : IndexedBasket totalEntries) :
    NumericEntry indexCount → Except IOException (IndexedBasket totalEntries)
  | .none _ => .ok { basket with nullCount := basket.nullCount + 1 }
  | answer =>
      match handedOver answer with
      | .error e => .error e
      | .ok values =>
          .ok { basket with
            basket := values.foldl (fun b v => b.add v.value statisticsEnabled) basket.basket }

/-- One entry of the loop of `Build`. -/
def indexEntry (numericEntry : UInt64 → Except IOException (NumericEntry indexCount))
    (progress : PathProgress totalEntries) (entry : UInt64) :
    Except IOException (PathProgress totalEntries) :=
  match advanceBasket entry progress.passed progress.upcoming with
  | ⟨passed, []⟩ => .ok ⟨passed, []⟩
  | ⟨passed, basket :: upcoming⟩ =>
      if entry < basket.range.entryBegin || basket.range.entryEnd ≤ entry then
        .ok ⟨passed, basket :: upcoming⟩
      else
        match numericEntry entry with
        | .error e => .error e
        | .ok answer =>
            match basket.addEntry statisticsEnabled answer with
            | .error e => .error e
            | .ok basket => .ok ⟨passed, basket :: upcoming⟩

/-- The loop of `Build` over a number of entries from `entry` on. -/
def indexEntries (numericEntry : UInt64 → Except IOException (NumericEntry indexCount)) :
    Nat → UInt64 → PathProgress totalEntries → Except IOException (PathProgress totalEntries)
  | 0, _, progress => .ok progress
  | steps + 1, entry, progress =>
      match indexEntry statisticsEnabled numericEntry progress entry with
      | .error e => .error e
      | .ok progress => indexEntries numericEntry steps (entry + 1) progress

end

/-- What the builder reads of a path in a file.  ROOT keeps the first entries of the baskets in
    order. -/
structure IndexedPath (indexCount : Nat) where
  snapshotId : String
  fileId : String
  rootUri : String
  treeName : String
  schemaId : String
  columnId : String
  eventBase : UInt64
  totalEntries : UInt64
  basketEntries : List UInt64
  ordered : basketEntries.Pairwise fun a b => a.toNat ≤ b.toNat
  physicalOffset : BasketRange totalEntries → UInt64
  compressedSize : BasketRange totalEntries → UInt32
  statisticsDoubleSafe : Bool
  bloom : RootBloomBuilder
  numericEntry : UInt64 → Except IOException (NumericEntry indexCount)

/-- A row of the files table, as far as planning reads it. -/
structure RootFileMetadataRow where
  snapshotId : String
  fileId : String
  rootUri : String
  treeName : String
  schemaId : String
  columnId : String
  eventBase : UInt64
  totalEntries : UInt64
  valueCount : UInt64
  basketCount : UInt64
  deriving DecidableEq, Repr

/-- A row of the baskets table. -/
structure RootBasketMetadataRow where
  snapshotId : String
  fileId : String
  columnId : String
  entryBegin : UInt64
  entryEnd : UInt64
  valueCount : UInt64
  physicalOffset : UInt64
  compressedSize : UInt32
  deriving DecidableEq, Repr

namespace IndexedPath

variable {indexCount : Nat} (path : IndexedPath indexCount)

/-- The ranges of the path's baskets. -/
def ranges : List (BasketRange path.totalEntries) :=
  preparePath path.totalEntries path.basketEntries

/-- The baskets of the path after the entries have been read. -/
def baskets : Except IOException (List (IndexedBasket path.totalEntries)) :=
  (indexEntries path.statisticsDoubleSafe path.numericEntry path.totalEntries.toNat 0
    ⟨[], path.ranges.map fun range => { range := range, basket := { bloom := path.bloom } }⟩).map
      fun progress => progress.passed.reverse ++ progress.upcoming

def basketRow (basket : IndexedBasket path.totalEntries) : RootBasketMetadataRow where
  snapshotId := path.snapshotId
  fileId := path.fileId
  columnId := path.columnId
  entryBegin := basket.range.entryBegin
  entryEnd := basket.range.entryEnd
  valueCount := UInt64.ofNat basket.basket.valueCount
  physicalOffset := path.physicalOffset basket.range
  compressedSize := path.compressedSize basket.range

/-- The rows `Build` writes for the path. -/
def fileRow (baskets : List (IndexedBasket path.totalEntries)) : RootFileMetadataRow where
  snapshotId := path.snapshotId
  fileId := path.fileId
  rootUri := path.rootUri
  treeName := path.treeName
  schemaId := path.schemaId
  columnId := path.columnId
  eventBase := path.eventBase
  totalEntries := path.totalEntries
  valueCount := (baskets.map fun basket => UInt64.ofNat basket.basket.valueCount).sum
  basketCount := UInt64.ofNat baskets.length

end IndexedPath

/-! ### What a basket counts -/

theorem valueCount_add (basket : BasketAccumulator) (value : RootPrimitiveValue) (enabled : Bool) :
    (basket.add value enabled).valueCount = basket.valueCount + 1 := by
  unfold BasketAccumulator.add
  dsimp only
  repeat' split
  all_goals rfl

theorem length_foldl_add {indexCount : Nat} (enabled : Bool)
    (values : List (DecodedValue indexCount)) :
    ∀ basket : BasketAccumulator,
      (values.foldl (fun b v => b.add v.value enabled) basket).valueCount =
        basket.valueCount + values.length := by
  induction values with
  | nil => exact fun basket => rfl
  | cons value values ih =>
    intro basket
    rw [List.foldl_cons, ih, valueCount_add, List.length_cons]
    omega

/-- The entries of a range, as `Build` counts them: those before `entry`. -/
def countedUpTo (count : Nat → Nat) (first last entry : Nat) : Nat :=
  ∑ e ∈ Finset.Ico first (min last entry), count e

theorem countedUpTo_succ {count : Nat → Nat} {first last entry : Nat} (hfirst : first ≤ entry)
    (hlast : entry < last) :
    countedUpTo count first last (entry + 1) = countedUpTo count first last entry + count entry := by
  unfold countedUpTo
  rw [Nat.min_eq_right (by omega), Nat.min_eq_right (by omega), Finset.sum_Ico_succ_top hfirst]

theorem countedUpTo_before {count : Nat → Nat} {first last entry : Nat} (h : entry < first) :
    countedUpTo count first last (entry + 1) = countedUpTo count first last entry := by
  unfold countedUpTo
  rw [Finset.Ico_eq_empty (by omega), Finset.Ico_eq_empty (by omega)]

theorem countedUpTo_after {count : Nat → Nat} {first last entry : Nat} (h : last ≤ entry) :
    countedUpTo count first last (entry + 1) = countedUpTo count first last entry := by
  unfold countedUpTo
  rw [Nat.min_eq_left (by omega), Nat.min_eq_left h]

/-- The ranges of an ordered branch follow each other. -/
theorem preparePath_ordered (totalEntries : UInt64) :
    ∀ basketEntries : List UInt64, (basketEntries.Pairwise fun a b => a.toNat ≤ b.toNat) →
      (preparePath totalEntries basketEntries).Pairwise
          (fun a b => a.entryEnd.toNat ≤ b.entryBegin.toNat) ∧
        ∀ range ∈ preparePath totalEntries basketEntries,
          range.entryBegin ∈ basketEntries := by
  intro basketEntries
  induction basketEntries with
  | nil => exact fun _ => ⟨List.Pairwise.nil, fun range h => by cases h⟩
  | cons first rest ih =>
    intro hordered
    obtain ⟨hfirst, hrest⟩ := List.pairwise_cons.mp hordered
    obtain ⟨hpairwise, hmem⟩ := ih hrest
    have hlater : ∀ range ∈ preparePath totalEntries rest, range.entryBegin ∈ first :: rest :=
      fun range hrange => List.mem_cons_of_mem _ (hmem range hrange)
    unfold preparePath
    dsimp only
    split
    next hnonempty =>
      refine ⟨List.pairwise_cons.mpr ⟨?_, hpairwise⟩, ?_⟩
      · intro range hrange
        have hbegin := hmem range hrange
        dsimp only
        rw [toNat_stdMin]
        cases rest with
        | nil => cases hbegin
        | cons second more =>
          have hsecond : second.toNat ≤ range.entryBegin.toNat := by
            rcases List.mem_cons.mp hbegin with heq | hmore
            · rw [heq]
            · exact (List.pairwise_cons.mp hrest).1 _ hmore
          dsimp only [List.head?_cons, Option.getD_some]
          omega
      · intro range hrange
        rcases List.mem_cons.mp hrange with rfl | hrange
        · exact List.mem_cons_self
        · exact hlater range hrange
    next => exact ⟨hpairwise, hlater⟩

section

variable {indexCount : Nat} {totalEntries : UInt64}

/-- **The invariant of the entry loop**: the ranges stay, those behind the active basket lie
    before `entry`, and every basket has the property `p` before `entry`. -/
structure BasketsKeep (p : IndexedBasket totalEntries → Nat → Prop)
    (ranges : List (BasketRange totalEntries)) (entry : Nat)
    (progress : PathProgress totalEntries) : Prop where
  same : (progress.passed.reverse ++ progress.upcoming).map (·.range) = ranges
  behind : ∀ b ∈ progress.passed, b.range.entryEnd.toNat ≤ entry
  kept : ∀ b ∈ progress.passed.reverse ++ progress.upcoming, p b entry

/-- A property that entries outside the range of the basket leave as it is. -/
structure Outside (p : IndexedBasket totalEntries → Nat → Prop) : Prop where
  before : ∀ {b entry}, p b entry → entry < b.range.entryBegin.toNat → p b (entry + 1)
  after : ∀ {b entry}, p b entry → b.range.entryEnd.toNat ≤ entry → p b (entry + 1)

theorem BasketsKeep.advance {p : IndexedBasket totalEntries → Nat → Prop}
    {ranges : List (BasketRange totalEntries)} {entry : UInt64}
    (upcoming : List (IndexedBasket totalEntries)) :
    ∀ {passed : List (IndexedBasket totalEntries)},
      BasketsKeep p ranges entry.toNat ⟨passed, upcoming⟩ →
      BasketsKeep p ranges entry.toNat (advanceBasket entry passed upcoming) ∧
        ∀ b rest, (advanceBasket entry passed upcoming).upcoming = b :: rest →
          entry.toNat < b.range.entryEnd.toNat := by
  induction upcoming with
  | nil =>
    intro passed h
    exact ⟨h, fun b rest hnil => by cases hnil⟩
  | cons basket upcoming ih =>
    intro passed h
    unfold advanceBasket
    split
    next hpassed =>
      have hle := UInt64.le_iff_toNat_le.mp hpassed
      have hlist : (basket :: passed).reverse ++ upcoming =
          passed.reverse ++ basket :: upcoming := by
        rw [List.reverse_cons, List.append_assoc, List.singleton_append]
      refine ih ⟨?_, ?_, ?_⟩
      · dsimp only
        rw [hlist]
        exact h.same
      · exact List.forall_mem_cons.mpr ⟨hle, h.behind⟩
      · dsimp only
        rw [hlist]
        exact h.kept
    next hactive =>
      refine ⟨h, fun b rest heq => ?_⟩
      cases heq
      have hlt := UInt64.not_le.mp hactive
      exact UInt64.lt_iff_toNat_lt.mp hlt

/-- **Step lemma** of the entry loop: what the active basket keeps when it takes its entry, all
    baskets keep. -/
theorem BasketsKeep.indexEntry {p : IndexedBasket totalEntries → Nat → Prop} (outside : Outside p)
    {ranges : List (BasketRange totalEntries)}
    (hranges : ranges.Pairwise fun a b => a.entryEnd.toNat ≤ b.entryBegin.toNat)
    {statisticsEnabled : Bool}
    {numericEntry : UInt64 → Except IOException (NumericEntry indexCount)} {entry : UInt64}
    {progress next : PathProgress totalEntries} (h : BasketsKeep p ranges entry.toNat progress)
    (hadd : ∀ b : IndexedBasket totalEntries, b.range.entryBegin.toNat ≤ entry.toNat →
      entry.toNat < b.range.entryEnd.toNat → b.range ∈ ranges → p b entry.toNat →
      ∀ answer b', numericEntry entry = .ok answer → b.addEntry statisticsEnabled answer = .ok b' →
        b'.range = b.range ∧ p b' (entry.toNat + 1))
    (hstep : indexEntry statisticsEnabled numericEntry progress entry = .ok next) :
    BasketsKeep p ranges (entry.toNat + 1) next := by
  obtain ⟨hadvanced, hactive⟩ := h.advance progress.upcoming
  unfold RootLake.Dataset.indexEntry at hstep
  generalize advanceBasket entry progress.passed progress.upcoming = advanced
    at hadvanced hactive hstep
  obtain ⟨passed, upcoming⟩ := advanced
  have hpassed : ∀ b ∈ passed, p b (entry.toNat + 1) := by
    intro b hb
    have hkept := hadvanced.kept b (List.mem_append_left _ (List.mem_reverse.mpr hb))
    exact outside.after hkept (hadvanced.behind b hb)
  have hbehind : ∀ b ∈ passed, b.range.entryEnd.toNat ≤ entry.toNat + 1 :=
    fun b hb => Nat.le_succ_of_le (hadvanced.behind b hb)
  cases upcoming with
  | nil =>
    cases hstep
    refine ⟨hadvanced.same, hbehind, fun b hb => ?_⟩
    rw [List.append_nil, List.mem_reverse] at hb
    exact hpassed b hb
  | cons basket upcoming =>
    have hlast := hactive basket upcoming rfl
    have hpairwise : (basket.range :: upcoming.map (·.range)).Pairwise
        fun a b => a.entryEnd.toNat ≤ b.entryBegin.toNat := by
      rw [← hadvanced.same] at hranges
      simp only [List.map_append, List.map_cons] at hranges
      exact (List.pairwise_append.mp hranges).2.1
    have hupcoming : ∀ b ∈ upcoming, p b (entry.toNat + 1) := by
      intro b hb
      have hle := (List.pairwise_cons.mp hpairwise).1 _ (List.mem_map_of_mem hb)
      apply outside.before (hadvanced.kept b _) (by omega)
      exact List.mem_append_right _ (List.mem_cons_of_mem _ hb)
    have hbasket := hadvanced.kept basket (List.mem_append_right _ List.mem_cons_self)
    -- Whatever became of the active basket, the others are as they were.
    have hkept : ∀ b' : IndexedBasket totalEntries, b'.range = basket.range →
        p b' (entry.toNat + 1) →
        BasketsKeep p ranges (entry.toNat + 1) ⟨passed, b' :: upcoming⟩ := by
      intro b' hrange hb'
      refine ⟨?_, hbehind, fun b hb => ?_⟩
      · have hsame := hadvanced.same
        simp only [List.map_append, List.map_cons, hrange] at hsame ⊢
        exact hsame
      · rcases List.mem_append.mp hb with hb | hb
        · exact hpassed b (List.mem_reverse.mp hb)
        · rcases List.mem_cons.mp hb with rfl | hb
          · exact hb'
          · exact hupcoming b hb
    dsimp only at hstep
    split at hstep
    next hout =>
      cases hstep
      rw [Bool.or_eq_true, decide_eq_true_eq, decide_eq_true_eq, UInt64.lt_iff_toNat_lt,
        UInt64.le_iff_toNat_le] at hout
      exact hkept basket rfl (outside.before hbasket (by omega))
    next hin =>
      rw [Bool.or_eq_true, decide_eq_true_eq, decide_eq_true_eq, UInt64.lt_iff_toNat_lt,
        UInt64.le_iff_toNat_le] at hin
      cases hanswer : numericEntry entry with
      | error e =>
        rw [hanswer] at hstep
        cases hstep
      | ok answer =>
        rw [hanswer] at hstep
        dsimp only at hstep
        cases hbasketAdd : basket.addEntry statisticsEnabled answer with
        | error e =>
          rw [hbasketAdd] at hstep
          cases hstep
        | ok b' =>
          rw [hbasketAdd] at hstep
          cases hstep
          have hmem : basket.range ∈ ranges := by
            rw [← hadvanced.same, List.map_append, List.map_cons]
            exact List.mem_append_right _ List.mem_cons_self
          obtain ⟨hrange, hb'⟩ := hadd basket (by omega) hlast hmem hbasket answer b' hanswer
            hbasketAdd
          exact hkept b' hrange hb'

/-- **Run lemma** of the entry loop. -/
theorem BasketsKeep.indexEntries {p : IndexedBasket totalEntries → Nat → Prop}
    (outside : Outside p) {ranges : List (BasketRange totalEntries)}
    (hranges : ranges.Pairwise fun a b => a.entryEnd.toNat ≤ b.entryBegin.toNat)
    {statisticsEnabled : Bool}
    {numericEntry : UInt64 → Except IOException (NumericEntry indexCount)}
    (hadd : ∀ (entry : UInt64) (b : IndexedBasket totalEntries),
      b.range.entryBegin.toNat ≤ entry.toNat → entry.toNat < b.range.entryEnd.toNat →
      b.range ∈ ranges → p b entry.toNat →
      ∀ answer b', numericEntry entry = .ok answer → b.addEntry statisticsEnabled answer = .ok b' →
        b'.range = b.range ∧ p b' (entry.toNat + 1)) (steps : Nat) :
    ∀ {entry : UInt64} {progress last : PathProgress totalEntries},
      entry.toNat + steps = totalEntries.toNat → BasketsKeep p ranges entry.toNat progress →
      indexEntries statisticsEnabled numericEntry steps entry progress = .ok last →
      BasketsKeep p ranges totalEntries.toNat last := by
  induction steps with
  | zero =>
    intro entry progress last hsteps h hrun
    cases hrun
    rw [← hsteps, Nat.add_zero]
    exact h
  | succ steps ih =>
    intro entry progress last hsteps h hrun
    have htotal := totalEntries.toNat_lt
    have hunit : (1 : UInt64).toNat = 1 := rfl
    have hentry : (entry + 1).toNat = entry.toNat + 1 := by
      rw [toNat_add_of_lt (by omega), hunit]
    unfold RootLake.Dataset.indexEntries at hrun
    cases hstep : Dataset.indexEntry statisticsEnabled numericEntry progress entry with
    | error e =>
      rw [hstep] at hrun
      cases hrun
    | ok next =>
      rw [hstep] at hrun
      have hnext := h.indexEntry outside hranges (hadd entry) hstep
      rw [← hentry] at hnext
      exact ih (by omega) hnext hrun

/-- Entry `entry` is read without an error, and has `count` values. -/
def ReadsValues (numericEntry : UInt64 → Except IOException (NumericEntry indexCount))
    (entry : UInt64) (count : Nat) : Prop :=
  ∃ answer values, numericEntry entry = .ok answer ∧ handedOver answer = .ok values ∧
    values.length = count

/-- An answer whose values are handed over is added. -/
theorem addEntry_isOk (statisticsEnabled : Bool) (basket : IndexedBasket totalEntries)
    {answer : NumericEntry indexCount} {values : List (DecodedValue indexCount)}
    (h : handedOver answer = .ok values) :
    ∃ next, basket.addEntry statisticsEnabled answer = .ok next := by
  cases answer with
  | none leftover => exact ⟨_, rfl⟩
  | serializedValues delivered => exact ⟨_, rfl⟩
  | paged pages =>
    unfold IndexedBasket.addEntry
    dsimp only
    rw [h]
    exact ⟨_, rfl⟩

theorem addEntry_spec {statisticsEnabled : Bool} {basket next : IndexedBasket totalEntries}
    {answer : NumericEntry indexCount} {values : List (DecodedValue indexCount)}
    (h : handedOver answer = .ok values)
    (hadd : basket.addEntry statisticsEnabled answer = .ok next) :
    next.range = basket.range ∧
      next.basket.valueCount = basket.basket.valueCount + values.length := by
  cases answer with
  | none leftover =>
    cases h
    cases hadd
    exact ⟨rfl, rfl⟩
  | serializedValues delivered =>
    cases h
    cases hadd
    exact ⟨rfl, length_foldl_add statisticsEnabled _ _⟩
  | paged pages =>
    unfold IndexedBasket.addEntry at hadd
    dsimp only at hadd
    rw [h] at hadd
    cases hadd
    exact ⟨rfl, length_foldl_add statisticsEnabled _ _⟩

/-- The loop gets through entries that are read without an error. -/
theorem indexEntries_isOk {statisticsEnabled : Bool}
    {numericEntry : UInt64 → Except IOException (NumericEntry indexCount)} {count : Nat → Nat}
    (hread : ∀ entry : UInt64, entry.toNat < totalEntries.toNat →
      ReadsValues numericEntry entry (count entry.toNat)) (steps : Nat) :
    ∀ {entry : UInt64} {progress : PathProgress totalEntries},
      entry.toNat + steps = totalEntries.toNat →
      ∃ last, indexEntries statisticsEnabled numericEntry steps entry progress = .ok last := by
  induction steps with
  | zero => exact fun _ => ⟨_, rfl⟩
  | succ steps ih =>
    intro entry progress hsteps
    have hstep : ∃ next, indexEntry statisticsEnabled numericEntry progress entry = .ok next := by
      unfold indexEntry
      generalize advanceBasket entry progress.passed progress.upcoming = advanced
      obtain ⟨passed, upcoming⟩ := advanced
      cases upcoming with
      | nil => exact ⟨_, rfl⟩
      | cons basket upcoming =>
        dsimp only
        split
        next => exact ⟨_, rfl⟩
        next =>
          obtain ⟨answer, values, hanswer, hvalues, -⟩ := hread entry (by omega)
          obtain ⟨next, hadd⟩ := addEntry_isOk statisticsEnabled basket hvalues
          rw [hanswer]
          dsimp only
          rw [hadd]
          exact ⟨_, rfl⟩
    obtain ⟨next, hstep⟩ := hstep
    have htotal := totalEntries.toNat_lt
    have hunit : (1 : UInt64).toNat = 1 := rfl
    have hentry : (entry + 1).toNat = entry.toNat + 1 := by
      rw [toNat_add_of_lt (by omega), hunit]
    obtain ⟨last, hlast⟩ := @ih (entry + 1) next (by omega)
    refine ⟨last, ?_⟩
    unfold indexEntries
    rw [hstep]
    exact hlast

/-- **What the baskets of an indexed path keep.** -/
theorem IndexedPath.baskets_keep {path : IndexedPath indexCount}
    {p : IndexedBasket path.totalEntries → Nat → Prop} (outside : Outside p)
    (hfresh : ∀ range, p { range := range, basket := { bloom := path.bloom } } 0)
    (hadd : ∀ (entry : UInt64) (b : IndexedBasket path.totalEntries),
      b.range.entryBegin.toNat ≤ entry.toNat → entry.toNat < b.range.entryEnd.toNat →
      b.range ∈ path.ranges → p b entry.toNat →
      ∀ answer b', path.numericEntry entry = .ok answer →
        b.addEntry path.statisticsDoubleSafe answer = .ok b' →
        b'.range = b.range ∧ p b' (entry.toNat + 1))
    {baskets : List (IndexedBasket path.totalEntries)} (h : path.baskets = .ok baskets) :
    baskets.map (·.range) = path.ranges ∧ ∀ b ∈ baskets, p b path.totalEntries.toNat := by
  have hranges := (preparePath_ordered path.totalEntries path.basketEntries path.ordered).1
  have hzero : (0 : UInt64).toNat + path.totalEntries.toNat = path.totalEntries.toNat :=
    Nat.zero_add _
  have hstart : BasketsKeep p path.ranges 0
      ⟨[], path.ranges.map fun range => { range := range, basket := { bloom := path.bloom } }⟩ := by
    refine ⟨?_, fun b hb => absurd hb List.not_mem_nil, ?_⟩
    · rw [List.reverse_nil, List.nil_append, List.map_map]
      exact List.map_id _
    · intro b hb
      rw [List.reverse_nil, List.nil_append] at hb
      obtain ⟨range, -, rfl⟩ := List.mem_map.mp hb
      exact hfresh range
  unfold IndexedPath.baskets at h
  cases hrun : indexEntries path.statisticsDoubleSafe path.numericEntry path.totalEntries.toNat 0
      ⟨[], path.ranges.map fun range => { range := range, basket := { bloom := path.bloom } }⟩ with
  | error e =>
    rw [hrun] at h
    cases h
  | ok last =>
    rw [hrun] at h
    cases h
    have hlast := hstart.indexEntries outside hranges hadd _ hzero hrun
    exact ⟨hlast.same, hlast.kept⟩

/-- The values of a range. -/
def rangeValues (count : Nat → Nat) (range : BasketRange totalEntries) : Nat :=
  ∑ e ∈ Finset.Ico range.entryBegin.toNat range.entryEnd.toNat, count e

/-- **What indexing a path counts**: in every basket the values of its entries. -/
theorem IndexedPath.baskets_spec {path : IndexedPath indexCount} {count : Nat → Nat}
    (hread : ∀ entry : UInt64, entry.toNat < path.totalEntries.toNat →
      ReadsValues path.numericEntry entry (count entry.toNat)) :
    ∃ baskets, path.baskets = .ok baskets ∧ baskets.map (·.range) = path.ranges ∧
      ∀ b ∈ baskets, b.basket.valueCount = rangeValues count b.range := by
  have hzero : (0 : UInt64).toNat + path.totalEntries.toNat = path.totalEntries.toNat :=
    Nat.zero_add _
  obtain ⟨last, hrun⟩ := indexEntries_isOk hread path.totalEntries.toNat hzero
  have hbaskets : path.baskets = .ok (last.passed.reverse ++ last.upcoming) := by
    unfold IndexedPath.baskets
    rw [hrun]
    rfl
  have houtside : Outside fun (b : IndexedBasket path.totalEntries) entry => b.basket.valueCount =
      countedUpTo count b.range.entryBegin.toNat b.range.entryEnd.toNat entry := by
    constructor
    · intro b entry h hbefore
      rw [countedUpTo_before hbefore]
      exact h
    · intro b entry h hafter
      rw [countedUpTo_after hafter]
      exact h
  have hkeep := IndexedPath.baskets_keep houtside ?_ ?_ hbaskets
  · refine ⟨_, hbaskets, hkeep.1, fun b hb => ?_⟩
    rw [hkeep.2 b hb]
    unfold countedUpTo rangeValues
    rw [Nat.min_eq_left b.range.inFile]
  · intro range
    unfold countedUpTo
    rw [Finset.Ico_eq_empty (by omega), Finset.sum_empty]
  · intro entry b hfirst hin _ h answer b' hanswer hadd
    obtain ⟨answer', values, hanswer', hvalues, hlength⟩ := hread entry
      (lt_of_lt_of_le hin b.range.inFile)
    rw [hanswer] at hanswer'
    cases hanswer'
    obtain ⟨hrange, hcount⟩ := addEntry_spec hvalues hadd
    refine ⟨hrange, ?_⟩
    rw [hcount, h, hlength, hrange, countedUpTo_succ hfirst hin]

end

/-! ### The two queries -/

/-- What a query selects: the schemas of its path, and a snapshot if one is asked for. -/
structure DatasetSelection where
  schemas : List (String × String)
  snapshotId : Option String := none
  deriving DecidableEq, Repr

namespace DatasetSelection

variable (selection : DatasetSelection)

def columnIds : List String := selection.schemas.map Prod.fst

def schemaIds : List String := selection.schemas.map Prod.snd

def inSnapshot (snapshotId : String) : Bool :=
  match selection.snapshotId with
  | none => true
  | some wanted => snapshotId == wanted

/-- The `WHERE` clause of `PlanMetadataCount`. -/
def selectsFile (file : RootFileMetadataRow) : Bool :=
  selection.columnIds.contains file.columnId && selection.schemaIds.contains file.schemaId &&
    selection.inSnapshot file.snapshotId

/-- The join and the `WHERE` clause of the basket query, without filters. -/
def selectsBasket (basket : RootBasketMetadataRow) (file : RootFileMetadataRow) : Bool :=
  file.fileId == basket.fileId && file.columnId == basket.columnId &&
    selection.columnIds.contains basket.columnId && selection.schemaIds.contains file.schemaId &&
    selection.inSnapshot file.snapshotId && selection.inSnapshot basket.snapshotId

end DatasetSelection

/-- `PlanMetadataCount`: the sum of the counts, cast to UBIGINT. -/
def planMetadataCount (selection : DatasetSelection) (files : List RootFileMetadataRow) :
    Except IOException UInt64 :=
  let total := ((files.filter selection.selectsFile).map fun file => file.valueCount.toNat).sum
  if total < 2 ^ 64 then .ok (UInt64.ofNat total)
  else .error ⟨"plan metadata-only ROOT count"⟩

/-- A row of the basket query. -/
def joinedRow (basket : RootBasketMetadataRow) (file : RootFileMetadataRow) : BasketRow where
  task :=
    { fileId := file.fileId
      rootUri := file.rootUri
      treeName := file.treeName
      schemaId := file.schemaId
      eventBase := file.eventBase
      entryBegin := basket.entryBegin
      entryEnd := basket.entryEnd
      valueCount := basket.valueCount
      physicalOffset := basket.physicalOffset
      compressedSize := basket.compressedSize.toUInt64
      basketCount := 1
      fileTotalEntries := file.totalEntries
      fileTotalBaskets := file.basketCount }

/-- The rows of the basket query, in some order. -/
def basketQuery (selection : DatasetSelection) (files : List RootFileMetadataRow)
    (baskets : List RootBasketMetadataRow) : List BasketRow :=
  baskets.flatMap fun basket =>
    (files.filter (selection.selectsBasket basket)).map (joinedRow basket)

/-! ### The metadata-only scan -/

/-- The counters of the metadata-only scan; `MaxThreads` allows it one worker. -/
structure MetadataScanState where
  metadataRowsEmitted : UInt64 := 0
  counters : DatasetCounters := {}

/-- `Scan` in metadata mode: the number of rows of the chunk, and the counters. -/
def metadataScan (global : DatasetGlobalState) (metadataTotalRows standardVectorSize : UInt64)
    (s : MetadataScanState) : UInt64 × MetadataScanState :=
  if s.metadataRowsEmitted < metadataTotalRows then
    let wanted := stdMin standardVectorSize (metadataTotalRows - s.metadataRowsEmitted)
    let (emitCount, counters) := reserveOutputRows global s.counters wanted
    (emitCount, ⟨s.metadataRowsEmitted + emitCount, counters⟩)
  else (0, s)

/-- The rows of a number of calls. -/
def metadataScanCalls (global : DatasetGlobalState)
    (metadataTotalRows standardVectorSize : UInt64) : Nat → MetadataScanState → Nat
  | 0, _ => 0
  | calls + 1, s =>
      let (emitted, next) := metadataScan global metadataTotalRows standardVectorSize s
      emitted.toNat + metadataScanCalls global metadataTotalRows standardVectorSize calls next

/-- The metadata-only scan emits `rows` rows, however often it is called beyond a bound. -/
def MetadataEmits (global : DatasetGlobalState) (metadataTotalRows standardVectorSize : UInt64)
    (rows : Nat) : Prop :=
  ∃ bound, ∀ calls, bound < calls →
    metadataScanCalls global metadataTotalRows standardVectorSize calls {} = rows

/-- One call emits what is left, a chunk at most, or as much as the limit allows. -/
theorem metadataScan_spec {global : DatasetGlobalState} {total size : UInt64} (hsize : size ≠ 0)
    {s : MetadataScanState}
    (hgranted : Granted global.rowLimit s.counters s.metadataRowsEmitted.toNat)
    (hle : s.metadataRowsEmitted.toNat ≤ total.toNat) :
    (metadataScan global total size s).2.metadataRowsEmitted.toNat =
        s.metadataRowsEmitted.toNat + (metadataScan global total size s).1.toNat ∧
      (metadataScan global total size s).2.metadataRowsEmitted.toNat ≤ total.toNat ∧
      Granted global.rowLimit (metadataScan global total size s).2.counters
        (metadataScan global total size s).2.metadataRowsEmitted.toNat ∧
      ((metadataScan global total size s).1 = 0 →
        s.metadataRowsEmitted.toNat = total.toNat ∨
          rowBudget global.rowLimit = some s.metadataRowsEmitted.toNat) := by
  have hzero : (0 : UInt64).toNat = 0 := rfl
  unfold metadataScan
  by_cases hleft : s.metadataRowsEmitted < total
  · rw [if_pos hleft]
    have hlt := UInt64.lt_iff_toNat_lt.mp hleft
    have htotal := total.toNat_lt
    have hwanted : (stdMin size (total - s.metadataRowsEmitted)).toNat =
        min size.toNat (total.toNat - s.metadataRowsEmitted.toNat) := by
      rw [toNat_stdMin, toNat_sub_of_le (by omega)]
    have hsizePos : 0 < size.toNat := by
      by_contra hnot
      exact hsize (UInt64.toNat_inj.mp (by omega))
    have hne : stdMin size (total - s.metadataRowsEmitted) ≠ 0 := by
      intro hnone
      have hnone := congrArg UInt64.toNat hnone
      omega
    obtain ⟨hgrant, hnext, hnone⟩ := reserveOutputRows_spec hne hgranted
    dsimp only
    generalize reserveOutputRows global s.counters (stdMin size (total - s.metadataRowsEmitted)) =
      reserved at hgrant hnext hnone ⊢
    obtain ⟨emitCount, counters⟩ := reserved
    dsimp only at hgrant hnext hnone ⊢
    have hsum : (s.metadataRowsEmitted + emitCount).toNat =
        s.metadataRowsEmitted.toNat + emitCount.toNat := toNat_add_of_lt (by omega)
    rw [hsum]
    exact ⟨rfl, by omega, hnext, fun h => Or.inr (hnone h)⟩
  · rw [if_neg hleft]
    have hge := UInt64.le_iff_toNat_le.mp (UInt64.not_lt.mp hleft)
    dsimp only
    rw [hzero, Nat.add_zero]
    exact ⟨rfl, hle, hgranted, fun _ => Or.inl (by omega)⟩

/-- A call that emits nothing is the last one that could. -/
theorem metadataScanCalls_of_zero {global : DatasetGlobalState} {total size : UInt64}
    (hsize : size ≠ 0) (calls : Nat) :
    ∀ {s : MetadataScanState},
      Granted global.rowLimit s.counters s.metadataRowsEmitted.toNat →
      s.metadataRowsEmitted.toNat ≤ total.toNat →
      (s.metadataRowsEmitted.toNat = total.toNat ∨
        rowBudget global.rowLimit = some s.metadataRowsEmitted.toNat) →
      metadataScanCalls global total size calls s = 0 := by
  induction calls with
  | zero => exact fun _ _ _ => rfl
  | succ calls ih =>
    intro s hgranted hle hend
    obtain ⟨hnext, hle', hgranted', -⟩ := metadataScan_spec hsize hgranted hle
    have hnone : (metadataScan global total size s).1.toNat = 0 := by
      rcases hend with heq | hbudget
      · omega
      · have hmost := hgranted'.le hbudget
        omega
    rw [hnone, Nat.add_zero] at hnext
    unfold metadataScanCalls
    dsimp only
    rw [hnone, ih hgranted' hle' (by rw [hnext]; exact hend)]

/-- **The metadata-only scan** emits all rows, or as many as the limit allows. -/
theorem metadataScan_emits {global : DatasetGlobalState} {total size : UInt64} (hsize : size ≠ 0) :
    MetadataEmits global total size (allowed (rowBudget global.rowLimit) total.toNat) := by
  have hrun : ∀ (calls : Nat) {s : MetadataScanState},
      Granted global.rowLimit s.counters s.metadataRowsEmitted.toNat →
      s.metadataRowsEmitted.toNat ≤ total.toNat →
      total.toNat < s.metadataRowsEmitted.toNat + calls →
      s.metadataRowsEmitted.toNat + metadataScanCalls global total size calls s =
        allowed (rowBudget global.rowLimit) total.toNat := by
    intro calls
    induction calls with
    | zero => intro s hgranted hle hcalls; omega
    | succ calls ih =>
      intro s hgranted hle hcalls
      obtain ⟨hnext, hle', hgranted', hlast⟩ := metadataScan_spec hsize hgranted hle
      by_cases hnone : (metadataScan global total size s).1 = 0
      · rw [metadataScanCalls_of_zero hsize (calls + 1) hgranted hle (hlast hnone), Nat.add_zero]
        unfold allowed
        rcases hlast hnone with heq | hbudget
        · cases hbudget : rowBudget global.rowLimit with
          | none => exact heq
          | some most =>
            have hmost := hgranted.le hbudget
            dsimp only
            omega
        · rw [hbudget]
          dsimp only
          omega
      · have hpositive : (metadataScan global total size s).1.toNat ≠ 0 :=
          fun h => hnone (UInt64.toNat_inj.mp h)
        have hrest := ih hgranted' hle' (by omega)
        unfold metadataScanCalls
        dsimp only
        omega
  refine ⟨total.toNat, fun calls hcalls => ?_⟩
  have hzero : (0 : UInt64).toNat = 0 := rfl
  have hstart := @hrun calls {} (by
    unfold Granted
    split
    next => rfl
    next => exact ⟨rfl, Nat.zero_le _, fun h => by cases h⟩) (by dsimp only; omega)
    (by dsimp only; omega)
  dsimp only at hstart
  omega

end RootLake.Dataset

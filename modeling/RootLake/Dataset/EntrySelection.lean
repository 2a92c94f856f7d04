/-
  RootLake/Dataset/EntrySelection.lean
  ====================================
  **Candidate entry intervals.**

  An entry selection and the surviving baskets of every path predicate are lists of
  half-open entry intervals.  Each list goes through `normalizeIntervals` before it is
  used, so what the planner clips baskets with is sorted, non-empty and non-adjacent;
  `CandidateIntervals` carries that.
-/
import RootLake.Dataset.Task
import RootLake.Lib.Count

namespace RootLake.Dataset

/-- Half-open ROOT entry interval. -/
structure EntryInterval where
  start : UInt64
  stop : UInt64
  deriving DecidableEq, Repr

def EntryInterval.covers (interval : EntryInterval) (entry : Nat) : Prop :=
  interval.start.toNat ≤ entry ∧ entry < interval.stop.toNat

instance (interval : EntryInterval) (entry : Nat) : Decidable (interval.covers entry) :=
  inferInstanceAs (Decidable (_ ∧ _))

/-- The comparator of the sort, as a reflexive order. -/
def EntryInterval.sortsBefore (left right : EntryInterval) : Bool :=
  decide (left.start < right.start) ||
    (decide (left.start = right.start) && decide (left.stop ≤ right.stop))

/-- One round of the merge; the merged intervals are kept newest first. -/
def mergeInterval (merged : List EntryInterval) (interval : EntryInterval) :
    List EntryInterval :=
  if interval.stop ≤ interval.start then merged
  else
    match merged with
    | [] => [interval]
    | last :: rest =>
        if interval.start ≤ last.stop then
          { last with stop := stdMax last.stop interval.stop } :: rest
        else interval :: last :: rest

def normalizeIntervals (intervals : List EntryInterval) : List EntryInterval :=
  ((intervals.mergeSort EntryInterval.sortsBefore).foldl mergeInterval []).reverse

/-- Non-empty intervals in increasing order, with a gap between neighbours. -/
structure Normalized (intervals : List EntryInterval) : Prop where
  nonempty : ∀ interval ∈ intervals, interval.start.toNat < interval.stop.toNat
  gaps : intervals.Pairwise fun left right => left.stop.toNat < right.start.toNat

/-- What the merge keeps: the newest interval lies behind all others. -/
theorem mergeInterval_gaps {merged : List EntryInterval} (interval : EntryInterval)
    (hnonempty : ∀ i ∈ merged, i.start.toNat < i.stop.toNat)
    (hgaps : merged.Pairwise fun newer older => older.stop.toNat < newer.start.toNat) :
    (∀ i ∈ mergeInterval merged interval, i.start.toNat < i.stop.toNat) ∧
      (mergeInterval merged interval).Pairwise
        fun newer older => older.stop.toNat < newer.start.toNat := by
  unfold mergeInterval
  by_cases hempty : interval.stop ≤ interval.start
  · rw [if_pos hempty]
    exact ⟨hnonempty, hgaps⟩
  rw [if_neg hempty]
  have hproper : interval.start.toNat < interval.stop.toNat := by
    rw [UInt64.le_iff_toNat_le] at hempty
    omega
  cases merged with
  | nil =>
    refine ⟨?_, List.pairwise_singleton _ _⟩
    intro i hi
    rw [List.mem_singleton.mp hi]
    exact hproper
  | cons last rest =>
    have hlast := hnonempty last List.mem_cons_self
    obtain ⟨hbehind, hrest⟩ := List.pairwise_cons.mp hgaps
    dsimp only
    by_cases hjoin : interval.start ≤ last.stop
    · rw [if_pos hjoin]
      refine ⟨?_, List.pairwise_cons.mpr ⟨hbehind, hrest⟩⟩
      intro i hi
      rcases List.mem_cons.mp hi with rfl | hi
      · rw [toNat_stdMax]
        exact Nat.lt_of_lt_of_le hlast (Nat.le_max_left _ _)
      · exact hnonempty i (List.mem_cons_of_mem _ hi)
    · rw [if_neg hjoin]
      have hgap : last.stop.toNat < interval.start.toNat := by
        rw [UInt64.le_iff_toNat_le] at hjoin
        omega
      refine ⟨?_, List.pairwise_cons.mpr ⟨?_, hgaps⟩⟩
      · intro i hi
        rcases List.mem_cons.mp hi with rfl | hi
        · exact hproper
        · exact hnonempty i hi
      · intro i hi
        rcases List.mem_cons.mp hi with rfl | hi
        · exact hgap
        · have := hbehind i hi
          omega

theorem foldl_mergeInterval_gaps :
    ∀ (intervals merged : List EntryInterval),
      (∀ i ∈ merged, i.start.toNat < i.stop.toNat) →
      (merged.Pairwise fun newer older => older.stop.toNat < newer.start.toNat) →
      (∀ i ∈ intervals.foldl mergeInterval merged, i.start.toNat < i.stop.toNat) ∧
        (intervals.foldl mergeInterval merged).Pairwise
          fun newer older => older.stop.toNat < newer.start.toNat := by
  intro intervals
  induction intervals with
  | nil => intro merged hnonempty hgaps; exact ⟨hnonempty, hgaps⟩
  | cons interval intervals ih =>
    intro merged hnonempty hgaps
    obtain ⟨hnonempty', hgaps'⟩ := mergeInterval_gaps interval hnonempty hgaps
    exact ih _ hnonempty' hgaps'

theorem normalizeIntervals_normalized (intervals : List EntryInterval) :
    Normalized (normalizeIntervals intervals) := by
  obtain ⟨hnonempty, hgaps⟩ :=
    foldl_mergeInterval_gaps (intervals.mergeSort EntryInterval.sortsBefore) []
      (fun i hi => by cases hi) List.Pairwise.nil
  refine ⟨?_, List.pairwise_reverse.mpr hgaps⟩
  intro i hi
  exact hnonempty i (List.mem_reverse.mp hi)

/-! ### Coverage -/

theorem EntryInterval.start_le_of_sortsBefore {left right : EntryInterval}
    (h : left.sortsBefore right = true) : left.start.toNat ≤ right.start.toNat := by
  simp only [sortsBefore, Bool.or_eq_true, Bool.and_eq_true, decide_eq_true_eq] at h
  rcases h with hlt | ⟨heq, -⟩
  · exact Nat.le_of_lt (UInt64.lt_iff_toNat_lt.mp hlt)
  · exact Nat.le_of_eq (congrArg UInt64.toNat heq)

theorem EntryInterval.pairwise_start_mergeSort (intervals : List EntryInterval) :
    (intervals.mergeSort sortsBefore).Pairwise
      fun left right => left.start.toNat ≤ right.start.toNat := by
  refine (List.pairwise_mergeSort ?_ ?_ intervals).imp start_le_of_sortsBefore
  · intro a b c hab hbc
    simp only [sortsBefore, Bool.or_eq_true, Bool.and_eq_true, decide_eq_true_eq,
      UInt64.lt_iff_toNat_lt, UInt64.le_iff_toNat_le, ← UInt64.toNat_inj] at hab hbc ⊢
    omega
  · intro a b
    simp only [sortsBefore, Bool.or_eq_true, Bool.and_eq_true, decide_eq_true_eq,
      UInt64.lt_iff_toNat_lt, UInt64.le_iff_toNat_le, ← UInt64.toNat_inj]
    omega

/-- A round covers what was covered and the interval, as long as it does not start before
    the newest one. -/
theorem mergeInterval_covers {merged : List EntryInterval} {interval : EntryInterval}
    (hsorted : ∀ last ∈ merged.head?, last.start.toNat ≤ interval.start.toNat) (entry : Nat) :
    (∃ i ∈ mergeInterval merged interval, i.covers entry) ↔
      (∃ i ∈ merged, i.covers entry) ∨ interval.covers entry := by
  unfold mergeInterval
  by_cases hempty : interval.stop ≤ interval.start
  · rw [if_pos hempty]
    refine ⟨Or.inl, ?_⟩
    rintro (h | ⟨hstart, hstop⟩)
    · exact h
    · rw [UInt64.le_iff_toNat_le] at hempty
      omega
  rw [if_neg hempty]
  cases merged with
  | nil => simp only [List.mem_singleton, exists_eq_left, List.not_mem_nil, false_and,
      exists_false, false_or]
  | cons last rest =>
    have hbefore := hsorted last rfl
    dsimp only
    by_cases hjoin : interval.start ≤ last.stop
    · rw [if_pos hjoin]
      rw [UInt64.le_iff_toNat_le] at hjoin
      have hunion : EntryInterval.covers { last with stop := stdMax last.stop interval.stop }
          entry ↔ last.covers entry ∨ interval.covers entry := by
        simp only [EntryInterval.covers, toNat_stdMax]
        omega
      rw [List.exists_mem_cons_iff, List.exists_mem_cons_iff, hunion]
      exact or_right_comm
    · rw [if_neg hjoin, List.exists_mem_cons_iff]
      exact or_comm

/-- The newest interval never moves behind one that is still to come. -/
theorem mergeInterval_head {merged : List EntryInterval} {interval next : EntryInterval}
    (hsorted : ∀ last ∈ merged.head?, last.start.toNat ≤ next.start.toNat)
    (hnext : interval.start.toNat ≤ next.start.toNat) :
    ∀ last ∈ (mergeInterval merged interval).head?, last.start.toNat ≤ next.start.toNat := by
  unfold mergeInterval
  by_cases hempty : interval.stop ≤ interval.start
  · rw [if_pos hempty]
    exact hsorted
  rw [if_neg hempty]
  cases merged with
  | nil =>
    intro last hlast
    exact Option.some.inj hlast ▸ hnext
  | cons newest rest =>
    have hnewest := hsorted newest rfl
    dsimp only
    by_cases hjoin : interval.start ≤ newest.stop
    · rw [if_pos hjoin]
      intro last hlast
      exact Option.some.inj hlast ▸ hnewest
    · rw [if_neg hjoin]
      intro last hlast
      exact Option.some.inj hlast ▸ hnext

theorem foldl_mergeInterval_covers (entry : Nat) :
    ∀ (intervals merged : List EntryInterval),
      intervals.Pairwise (fun left right => left.start.toNat ≤ right.start.toNat) →
      (∀ interval ∈ intervals, ∀ last ∈ merged.head?, last.start.toNat ≤ interval.start.toNat) →
      ((∃ i ∈ intervals.foldl mergeInterval merged, i.covers entry) ↔
        (∃ i ∈ merged, i.covers entry) ∨ ∃ i ∈ intervals, i.covers entry) := by
  intro intervals
  induction intervals with
  | nil =>
    intro merged _ _
    simp only [List.foldl_nil, List.not_mem_nil, false_and, exists_false, or_false]
  | cons interval intervals ih =>
    intro merged hsorted hhead
    obtain ⟨hfirst, hrest⟩ := List.pairwise_cons.mp hsorted
    obtain ⟨hinterval, hintervals⟩ := List.forall_mem_cons.mp hhead
    have hhead' : ∀ next ∈ intervals, ∀ last ∈ (mergeInterval merged interval).head?,
        last.start.toNat ≤ next.start.toNat :=
      fun next hnext => mergeInterval_head (hintervals next hnext) (hfirst next hnext)
    rw [List.foldl_cons, ih _ hrest hhead', mergeInterval_covers hinterval,
      List.exists_mem_cons_iff, or_assoc]

/-- Normalizing covers the same entries. -/
theorem normalizeIntervals_covers (intervals : List EntryInterval) (entry : Nat) :
    (∃ i ∈ normalizeIntervals intervals, i.covers entry) ↔
      ∃ i ∈ intervals, i.covers entry := by
  have hfold := foldl_mergeInterval_covers entry _ []
    (EntryInterval.pairwise_start_mergeSort intervals) (fun _ _ _ hlast => by cases hlast)
  simp only [normalizeIntervals, List.mem_reverse, hfold, List.not_mem_nil, false_and,
    exists_false, false_or, List.mem_mergeSort]

/-- Normalized intervals. -/
structure CandidateIntervals where
  intervals : List EntryInterval
  normalized : Normalized intervals

def CandidateIntervals.ofIntervals (intervals : List EntryInterval) : CandidateIntervals where
  intervals := normalizeIntervals intervals
  normalized := normalizeIntervals_normalized intervals

/-- An entry lies in at most one candidate interval. -/
theorem CandidateIntervals.countP_covers (candidates : CandidateIntervals) (entry : Nat) :
    candidates.intervals.countP (fun interval => decide (interval.covers entry)) =
      if ∃ interval ∈ candidates.intervals, interval.covers entry then 1 else 0 := by
  have hexclusive : candidates.intervals.Pairwise fun left right =>
      decide (left.covers entry) = true → decide (right.covers entry) = true → False := by
    refine candidates.normalized.gaps.imp ?_
    intro left right hgap hleft hright
    obtain ⟨-, hstop⟩ := of_decide_eq_true hleft
    obtain ⟨hstart, -⟩ := of_decide_eq_true hright
    omega
  rw [Count.countP_of_exclusive hexclusive]
  simp only [decide_eq_true_eq]

end RootLake.Dataset

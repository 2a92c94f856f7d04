/-
  RootLake/Dataset/PredicateIntersection.lean
  ===========================================
  **The candidate intervals of a plan.**

  Before it reads the baskets of the value column, the planner narrows every file down to
  candidate intervals.  It starts from the entry selection when there is one, and from the
  surviving baskets of the first path predicate otherwise; the surviving baskets of every
  further predicate are intersected with what is left, and the loop ends early when nothing
  is.

  What is left of a file are the entries that its selection and one surviving basket of every
  predicate cover (`buildPredicateIntersection_covers`).
-/
import RootLake.Dataset.PlanCoverage
import RootLake.Dataset.PredicatePruning
import Mathlib.Data.List.AList

namespace RootLake.Dataset

open Index

/-! ### Intersecting two lists of intervals -/

/-- The loop of `IntersectIntervals`: the interval that ends first is left behind. -/
def intersectFrom : List EntryInterval → List EntryInterval → List EntryInterval
  | [], _ => []
  | _, [] => []
  | left :: lefts, right :: rights =>
      let start := stdMax left.start right.start
      let stop := stdMin left.stop right.stop
      let rest :=
        if left.stop < right.stop then intersectFrom lefts (right :: rights)
        else intersectFrom (left :: lefts) rights
      if start < stop then ⟨start, stop⟩ :: rest else rest
  termination_by left right => left.length + right.length

def CandidateIntervals.covers (candidates : CandidateIntervals) (entry : Nat) : Prop :=
  ∃ interval ∈ candidates.intervals, interval.covers entry

def intersectIntervals (left right : CandidateIntervals) : CandidateIntervals :=
  .ofIntervals (intersectFrom left.intervals right.intervals)

theorem CandidateIntervals.covers_ofIntervals {intervals : List EntryInterval} {entry : Nat} :
    (CandidateIntervals.ofIntervals intervals).covers entry ↔
      ∃ interval ∈ intervals, interval.covers entry :=
  normalizeIntervals_covers intervals entry

/-- An entry before the end of an interval is in none of those behind it. -/
theorem not_covers_of_gaps {first : EntryInterval} {rest : List EntryInterval}
    (h : Normalized (first :: rest)) {entry : Nat} (hentry : entry < first.stop.toNat) :
    ¬ ∃ interval ∈ rest, interval.covers entry := by
  rintro ⟨interval, hmem, hstart, -⟩
  have hgap := (List.pairwise_cons.mp h.gaps).1 interval hmem
  omega

theorem Normalized.tail {first : EntryInterval} {rest : List EntryInterval}
    (h : Normalized (first :: rest)) : Normalized rest where
  nonempty interval hmem := h.nonempty interval (List.mem_cons_of_mem _ hmem)
  gaps := (List.pairwise_cons.mp h.gaps).2

/-- The part that two intervals share. -/
theorem covers_common {left right : EntryInterval} {entry : Nat} :
    EntryInterval.covers ⟨stdMax left.start right.start, stdMin left.stop right.stop⟩ entry ↔
      left.covers entry ∧ right.covers entry := by
  simp only [EntryInterval.covers, toNat_stdMax, toNat_stdMin]
  omega

/-- A shared part is pushed when it is not empty, so nothing is lost or gained by the test. -/
theorem covers_push {start stop : UInt64} {rest : List EntryInterval} {entry : Nat} :
    (∃ interval ∈ (if start < stop then ⟨start, stop⟩ :: rest else rest), interval.covers entry) ↔
      EntryInterval.covers ⟨start, stop⟩ entry ∨ ∃ interval ∈ rest, interval.covers entry := by
  split
  next => rw [List.exists_mem_cons_iff]
  next hempty =>
    have hnone : ¬ EntryInterval.covers ⟨start, stop⟩ entry := by
      rintro ⟨hstart, hstop⟩
      dsimp only at hstart hstop
      rw [UInt64.lt_iff_toNat_lt] at hempty
      omega
    rw [or_iff_right hnone]

/-- Leaving the first interval of the left list behind loses nothing when it meets nothing
    but the first one of the right list; and the same with the sides turned round. -/
theorem leave_left_iff {l ls r rs : Prop} (h : l → ¬ rs) :
    l ∧ r ∨ ls ∧ (r ∨ rs) ↔ (l ∨ ls) ∧ (r ∨ rs) := by
  tauto

theorem leave_right_iff {l ls r rs : Prop} (h : r → ¬ ls) :
    l ∧ r ∨ (l ∨ ls) ∧ rs ↔ (l ∨ ls) ∧ (r ∨ rs) := by
  tauto

/-- **The two-pointer loop is the intersection**, by the recursion of the loop: the interval
    that is left behind meets nothing of what the other list still holds. -/
theorem intersectFrom_covers (left right : List EntryInterval) (hleft : Normalized left)
    (hright : Normalized right) (entry : Nat) :
    (∃ interval ∈ intersectFrom left right, interval.covers entry) ↔
      (∃ interval ∈ left, interval.covers entry) ∧ ∃ interval ∈ right, interval.covers entry := by
  induction left, right using intersectFrom.induct with
  | case1 right => simp [intersectFrom]
  | case2 left hne => simp [intersectFrom]
  | case3 left lefts right rights start stop hshared ihLeft ihRight
  | case4 left lefts right rights start stop hshared ihLeft ihRight =>
    rw [intersectFrom, covers_push, covers_common]
    by_cases hfirst : left.stop < right.stop
    · rw [if_pos hfirst, ihLeft hleft.tail hright, List.exists_mem_cons_iff,
        List.exists_mem_cons_iff]
      refine leave_left_iff ?_
      rintro ⟨-, hstop⟩
      rw [UInt64.lt_iff_toNat_lt] at hfirst
      exact not_covers_of_gaps hright (by omega)
    · rw [if_neg hfirst, ihRight hleft hright.tail, List.exists_mem_cons_iff,
        List.exists_mem_cons_iff]
      refine leave_right_iff ?_
      rintro ⟨-, hstop⟩
      rw [UInt64.lt_iff_toNat_lt] at hfirst
      exact not_covers_of_gaps hleft (by omega)

theorem covers_intersectIntervals {left right : CandidateIntervals} {entry : Nat} :
    (intersectIntervals left right).covers entry ↔ left.covers entry ∧ right.covers entry :=
  CandidateIntervals.covers_ofIntervals.trans
    (intersectFrom_covers _ _ left.normalized right.normalized entry)

/-! ### Maps from files to intervals -/

/-- The candidate intervals of the files that have some. -/
abbrev CandidateMap := AList fun _ : String => CandidateIntervals

def CandidateMap.covers (candidates : CandidateMap) (fileId : String) (entry : Nat) : Prop :=
  ∃ intervals, candidates.lookup fileId = some intervals ∧ intervals.covers entry

/-- A row of the query for a predicate's baskets. -/
structure PredicateBasketRow where
  fileId : String
  interval : EntryInterval
  statistics : ValueStatistics
  bloomFilter : Option (List UInt8)
  deriving DecidableEq, Repr

/-- The Bloom column is read for equalities only. -/
def needsBloom (predicate : PathPredicateBinding) : Bool :=
  usesDoubleBackedValueMetadata predicate.valueType &&
    (predicate.op == .eq || predicate.op == .isIn)

def fetchedBloom (predicate : PathPredicateBinding) (row : PredicateBasketRow) :
    Option (List UInt8) :=
  if needsBloom predicate then row.bloomFilter else none

/-- The row is not excluded by its metadata. -/
def survives (predicate : PathPredicateBinding) (row : PredicateBasketRow) : Bool :=
  predicateMetadataMayMatch predicate row.statistics (fetchedBloom predicate row)

/-- What the planner has narrowed down, and what it has counted. -/
structure PredicatePlan where
  candidateIntervals : CandidateMap := ∅
  predicateIndexBaskets : UInt64 := 0
  bloomMetadataBytes : UInt64 := 0
  predicateIntersections : UInt64 := 0

/-- The intervals under a key, with one pushed behind them. -/
def pushInterval (intervals : AList fun _ : String => List EntryInterval)
    (row : PredicateBasketRow) : AList fun _ : String => List EntryInterval :=
  intervals.insert row.fileId ((intervals.lookup row.fileId).getD [] ++ [row.interval])

/-- The loop that normalizes the intervals of every file. -/
def normalizeAll (intervals : AList fun _ : String => List EntryInterval) : CandidateMap where
  entries := intervals.entries.map (Sigma.map id fun _ => CandidateIntervals.ofIntervals)
  nodupKeys := List.NodupKeys.map₂ _ _ intervals.nodupKeys

def countRow (predicate : PathPredicateBinding) (plan : PredicatePlan) (row : PredicateBasketRow) :
    PredicatePlan :=
  { plan with
    predicateIndexBaskets := plan.predicateIndexBaskets + 1
    bloomMetadataBytes :=
      match fetchedBloom predicate row with
      | none => plan.bloomMetadataBytes
      | some bytes => plan.bloomMetadataBytes + UInt64.ofNat bytes.length }

section

variable (query : PathPredicateBinding → Except String (List PredicateBasketRow))

/-- `LoadPredicateIntervals`. -/
def loadPredicateIntervals (predicate : PathPredicateBinding) (plan : PredicatePlan) :
    Except IOException (CandidateMap × PredicatePlan) :=
  match query predicate with
  | .error e => .error ⟨"plan predicate ROOT basket scan: " ++ e⟩
  | .ok rows =>
      .ok (normalizeAll ((rows.filter (survives predicate)).foldl pushInterval ∅),
        rows.foldl (countRow predicate) plan)

/-- One file of the intersection; a file with nothing in common is left out. -/
def emplaceCommon (intervals intersection : CandidateMap) (fileId : String)
    (candidates : CandidateIntervals) : CandidateMap :=
  match intervals.lookup fileId with
  | none => intersection
  | some other =>
      let common := intersectIntervals candidates other
      if common.intervals.isEmpty then intersection else intersection.insert fileId common

def intersectCandidates (candidates intervals : CandidateMap) : CandidateMap :=
  candidates.foldl (emplaceCommon intervals) ∅

/-- The loop over the predicates. -/
def intersectPredicates : Bool → PredicatePlan → List PathPredicateBinding →
    Except IOException PredicatePlan
  | _, plan, [] => .ok plan
  | first, plan, predicate :: rest =>
      match loadPredicateIntervals query predicate plan with
      | .error e => .error e
      | .ok (intervals, plan) =>
          if first then
            intersectPredicates false { plan with candidateIntervals := intervals } rest
          else
            let intersection := intersectCandidates plan.candidateIntervals intervals
            let plan :=
              { plan with
                candidateIntervals := intersection
                predicateIntersections := plan.predicateIntersections + 1 }
            if intersection.entries.isEmpty then .ok plan
            else intersectPredicates false plan rest

/-- An entry selection as the map it is kept in. -/
def selectionMap (selection : List (String × CandidateIntervals)) : CandidateMap :=
  (selection.map fun source => ⟨source.1, source.2⟩).toAList

/-- `BuildPredicateIntersection`; no selection is active where there is none. -/
def buildPredicateIntersection (selection : Option (List (String × CandidateIntervals)))
    (pathPredicates : List PathPredicateBinding) (plan : PredicatePlan) :
    Except IOException PredicatePlan :=
  let plan :=
    match selection with
    | none => plan
    | some selection => { plan with candidateIntervals := selectionMap selection }
  intersectPredicates query selection.isNone plan pathPredicates

end

/-! ### What the maps cover -/

section

variable {fileId : String} {entry : Nat}

/-- The intervals pushed so far, of a file that may have none. -/
def pushedCovers (intervals : AList fun _ : String => List EntryInterval) (fileId : String)
    (entry : Nat) : Prop :=
  ∃ interval ∈ (intervals.lookup fileId).getD [], interval.covers entry

theorem pushedCovers_pushInterval {intervals : AList fun _ : String => List EntryInterval}
    {row : PredicateBasketRow} :
    pushedCovers (pushInterval intervals row) fileId entry ↔
      pushedCovers intervals fileId entry ∨ row.fileId = fileId ∧ row.interval.covers entry := by
  unfold pushedCovers pushInterval
  by_cases hfile : row.fileId = fileId
  · rw [← hfile, AList.lookup_insert, Option.getD_some]
    simp only [List.mem_append, List.mem_singleton, or_and_right, exists_or, exists_eq_left,
      true_and]
  · rw [AList.lookup_insert_ne (Ne.symm hfile), or_iff_left (fun h => hfile h.1)]

theorem pushedCovers_foldl (rows : List PredicateBasketRow) :
    ∀ {intervals : AList fun _ : String => List EntryInterval},
      pushedCovers (rows.foldl pushInterval intervals) fileId entry ↔
        pushedCovers intervals fileId entry ∨
          ∃ row ∈ rows, row.fileId = fileId ∧ row.interval.covers entry := by
  induction rows with
  | nil => intro intervals; simp
  | cons row rows ih =>
    intro intervals
    rw [List.foldl_cons, ih, pushedCovers_pushInterval, List.exists_mem_cons_iff, or_assoc]

theorem covers_normalizeAll {intervals : AList fun _ : String => List EntryInterval} :
    (normalizeAll intervals).covers fileId entry ↔ pushedCovers intervals fileId entry := by
  have hlookup : (normalizeAll intervals).lookup fileId =
      (intervals.lookup fileId).map CandidateIntervals.ofIntervals := List.dlookup_map₂ _
  unfold CandidateMap.covers pushedCovers
  rw [hlookup]
  cases intervals.lookup fileId with
  | none => simp
  | some own => simp [CandidateIntervals.covers_ofIntervals]

/-- The entries of a file that a surviving basket of the predicate covers. -/
def SurvivingBasket (query : PathPredicateBinding → Except String (List PredicateBasketRow))
    (predicate : PathPredicateBinding) (fileId : String) (entry : Nat) : Prop :=
  ∃ rows, query predicate = .ok rows ∧ ∃ row ∈ rows, survives predicate row = true ∧
    row.fileId = fileId ∧ row.interval.covers entry

theorem loadPredicateIntervals_covers
    {query : PathPredicateBinding → Except String (List PredicateBasketRow)}
    {predicate : PathPredicateBinding} {plan plan' : PredicatePlan} {intervals : CandidateMap}
    (h : loadPredicateIntervals query predicate plan = .ok (intervals, plan')) :
    plan'.candidateIntervals = plan.candidateIntervals ∧
      (intervals.covers fileId entry ↔ SurvivingBasket query predicate fileId entry) := by
  unfold loadPredicateIntervals at h
  split at h
  next => cases h
  next rows hrows =>
    cases h
    constructor
    · -- Counting leaves the intervals alone.
      clear hrows
      induction rows generalizing plan with
      | nil => rfl
      | cons row rows ih => exact ih
    · rw [covers_normalizeAll, pushedCovers_foldl]
      simp [pushedCovers, SurvivingBasket, hrows, List.mem_filter, and_assoc]

/-- One file of the intersection. -/
theorem covers_emplaceCommon {intervals intersection : CandidateMap} {own : String}
    {candidates : CandidateIntervals} (hfresh : own ∉ intersection) :
    (emplaceCommon intervals intersection own candidates).covers fileId entry ↔
      intersection.covers fileId entry ∨
        own = fileId ∧ candidates.covers entry ∧ intervals.covers fileId entry := by
  unfold emplaceCommon CandidateMap.covers
  cases hother : intervals.lookup own with
  | none =>
    refine (or_iff_left ?_).symm
    rintro ⟨rfl, -, other, hlookup, -⟩
    rw [hother] at hlookup
    cases hlookup
  | some other =>
    dsimp only
    have hcommon : own = fileId → ((intersectIntervals candidates other).covers entry ↔
        candidates.covers entry ∧
          ∃ intervals', intervals.lookup fileId = some intervals' ∧ intervals'.covers entry) := by
      rintro rfl
      rw [covers_intersectIntervals, hother]
      simp
    split
    next hempty =>
      refine (or_iff_left ?_).symm
      rintro ⟨hown, hcovers⟩
      obtain ⟨interval, hmem, -⟩ := (hcommon hown).mpr hcovers
      rw [List.isEmpty_iff.mp hempty] at hmem
      cases hmem
    next =>
      by_cases hown : own = fileId
      · have hnone : intersection.lookup fileId = none := by
          rw [← hown]
          exact AList.lookup_eq_none.mpr hfresh
        rw [← hcommon hown, ← hown, AList.lookup_insert, hown, hnone]
        simp
      · rw [AList.lookup_insert_ne (Ne.symm hown)]
        exact (or_iff_left fun h => hown h.1).symm

/-- The files a round adds are those it looks at. -/
theorem mem_emplaceCommon {intervals intersection : CandidateMap} {own file : String}
    {candidates : CandidateIntervals} (h : file ∈ emplaceCommon intervals intersection own candidates) :
    file = own ∨ file ∈ intersection := by
  unfold emplaceCommon at h
  split at h
  next => exact Or.inr h
  next =>
    dsimp only at h
    split at h
    next => exact Or.inr h
    next => exact (AList.mem_insert _).mp h

theorem covers_intersectCandidates {candidates intervals : CandidateMap} :
    (intersectCandidates candidates intervals).covers fileId entry ↔
      candidates.covers fileId entry ∧ intervals.covers fileId entry := by
  obtain ⟨files, hnodup⟩ := candidates
  -- Over the files that are left; none of them has been put into the intersection yet.
  have hloop : ∀ (files : List (Sigma fun _ : String => CandidateIntervals)),
      files.NodupKeys → ∀ intersection : CandidateMap,
        (∀ file ∈ files, file.1 ∉ intersection) →
        ((files.foldl (fun result file => emplaceCommon intervals result file.1 file.2)
          intersection).covers fileId entry ↔
            intersection.covers fileId entry ∨
              (∃ own, files.dlookup fileId = some own ∧ own.covers entry) ∧
                intervals.covers fileId entry) := by
    intro files
    induction files with
    | nil => intro _ intersection _; simp
    | cons file files ih =>
      obtain ⟨own, candidates⟩ := file
      intro hnodup intersection hfresh
      obtain ⟨hother, hnodup⟩ := List.nodupKeys_cons.mp hnodup
      obtain ⟨hown, hrest⟩ := List.forall_mem_cons.mp hfresh
      rw [List.foldl_cons, ih hnodup, covers_emplaceCommon hown, or_assoc]
      · refine or_congr_right ?_
        by_cases hfile : own = fileId
        · have hnone : files.dlookup fileId = none := by
            rw [← hfile]
            exact List.dlookup_eq_none.mpr hother
          rw [hfile, List.dlookup_cons_eq, hnone]
          simp
        · rw [List.dlookup_cons_ne _ _ (Ne.symm hfile)]
          exact or_iff_right fun h => hfile h.1
      · intro file hmem hnew
        rcases mem_emplaceCommon hnew with hsame | hold
        · exact hother (hsame ▸ List.mem_map_of_mem hmem)
        · exact hrest file hmem hold
  unfold intersectCandidates AList.foldl
  rw [hloop files hnodup ∅ (fun _ _ => AList.notMem_empty _)]
  simp [CandidateMap.covers, AList.lookup]

theorem not_covers_of_isEmpty {candidates : CandidateMap}
    (h : candidates.entries.isEmpty = true) : ¬ candidates.covers fileId entry := by
  rintro ⟨own, hlookup, -⟩
  have hnil := List.isEmpty_iff.mp h
  unfold AList.lookup at hlookup
  rw [hnil] at hlookup
  cases hlookup

/-- **Run lemma**: what is left after the loop is what was there before it, as far as every
    predicate keeps it.  An intersection that is empty stays empty, so ending early loses
    nothing. -/
theorem intersectPredicates_covers
    {query : PathPredicateBinding → Except String (List PredicateBasketRow)}
    (predicates : List PathPredicateBinding) :
    ∀ {plan plan' : PredicatePlan}, intersectPredicates query false plan predicates = .ok plan' →
      (plan'.candidateIntervals.covers fileId entry ↔
        plan.candidateIntervals.covers fileId entry ∧
          ∀ predicate ∈ predicates, SurvivingBasket query predicate fileId entry) := by
  induction predicates with
  | nil =>
    intro plan plan' h
    cases h
    simp
  | cons predicate rest ih =>
    intro plan plan' h
    rw [intersectPredicates] at h
    split at h
    next => cases h
    next intervals counted hload =>
      obtain ⟨hsame, hsurviving⟩ := loadPredicateIntervals_covers hload
      rw [if_neg (by decide)] at h
      dsimp only at h
      rw [List.forall_mem_cons, ← hsurviving, ← and_assoc, ← hsame, ← covers_intersectCandidates]
      split at h
      next hempty =>
        cases h
        have hnone : ¬ (intersectCandidates counted.candidateIntervals intervals).covers fileId
            entry := not_covers_of_isEmpty hempty
        exact ⟨fun hcovers => absurd hcovers hnone, fun hcovers => absurd hcovers.1 hnone⟩
      next => exact ih h

end

section

variable {query : PathPredicateBinding → Except String (List PredicateBasketRow)}

/-- The loop ends when the queries do. -/
theorem intersectPredicates_ok {predicates : List PathPredicateBinding}
    (hquery : ∀ predicate ∈ predicates, ∃ rows, query predicate = .ok rows) :
    ∀ (first : Bool) (plan : PredicatePlan),
      ∃ plan', intersectPredicates query first plan predicates = .ok plan' := by
  induction predicates with
  | nil => intro _ plan; exact ⟨plan, rfl⟩
  | cons predicate rest ih =>
    intro first plan
    obtain ⟨⟨rows, hrows⟩, hrest⟩ := List.forall_mem_cons.mp hquery
    unfold intersectPredicates loadPredicateIntervals
    rw [hrows]
    dsimp only
    split
    next => exact ih hrest _ _
    next =>
      split
      next => exact ⟨_, rfl⟩
      next => exact ih hrest _ _

/-- The entries of a file that its selection, when one is active, and every path predicate
    let through. -/
def CandidateEntry (query : PathPredicateBinding → Except String (List PredicateBasketRow))
    (selection : Option (List (String × CandidateIntervals)))
    (pathPredicates : List PathPredicateBinding) (fileId : String) (entry : Nat) : Prop :=
  (∀ sources, selection = some sources →
      ∃ candidates, sources.lookup fileId = some candidates ∧ candidates.covers entry) ∧
    ∀ predicate ∈ pathPredicates, SurvivingBasket query predicate fileId entry

/-- What the planner clips baskets with. -/
def PlanInput.withPredicatePlan (input : PlanInput)
    (selection : Option (List (String × CandidateIntervals)))
    (pathPredicates : List PathPredicateBinding) (plan : PredicatePlan) : PlanInput :=
  { input with
    entrySelectionActive := selection.isSome
    hasPathPredicates := !pathPredicates.isEmpty
    candidateIntervals := fun fileId => plan.candidateIntervals.lookup fileId }

theorem covers_selectionMap {sources : List (String × CandidateIntervals)} {fileId : String}
    {entry : Nat} :
    (selectionMap sources).covers fileId entry ↔
      ∃ candidates, sources.lookup fileId = some candidates ∧ candidates.covers entry := by
  unfold CandidateMap.covers selectionMap
  rw [AList.lookup_to_alist]
  induction sources with
  | nil => simp
  | cons source sources ih =>
    obtain ⟨own, candidates⟩ := source
    rw [List.map_cons, List.lookup_cons]
    by_cases hown : fileId = own
    · rw [← hown, List.dlookup_cons_eq]
      simp
    · have hkey : (fileId == own) = false := beq_eq_false_iff_ne.mpr hown
      rw [List.dlookup_cons_ne _ _ hown, ih, hkey]

/-- With a selection or a predicate, what is left is what is wanted. -/
theorem covers_of_buildPredicateIntersection
    {selection : Option (List (String × CandidateIntervals))}
    {pathPredicates : List PathPredicateBinding} {plan plan' : PredicatePlan}
    (h : buildPredicateIntersection query selection pathPredicates plan = .ok plan')
    (hactive : selection.isSome = true ∨ pathPredicates ≠ []) (fileId : String) (entry : Nat) :
    plan'.candidateIntervals.covers fileId entry ↔
      CandidateEntry query selection pathPredicates fileId entry := by
  unfold buildPredicateIntersection at h
  unfold CandidateEntry
  cases selection with
  | some sources =>
    rw [intersectPredicates_covers pathPredicates h, covers_selectionMap]
    simp
  | none =>
    cases pathPredicates with
    | nil => exact absurd rfl (hactive.resolve_left (by decide))
    | cons predicate rest =>
      -- The first predicate is loaded as it is.
      dsimp only [Option.isNone_none] at h
      rw [intersectPredicates] at h
      split at h
      next => cases h
      next intervals counted hload =>
        rw [if_pos rfl] at h
        rw [intersectPredicates_covers rest h, List.forall_mem_cons,
          ← (loadPredicateIntervals_covers hload).2]
        simp

theorem inCandidateIntervals_iff {input : PlanInput} {fileId : String} {entry : Nat}
    (hactive : input.intervalFilterActive = true) :
    inCandidateIntervals input fileId entry = true ↔
      ∃ candidates, input.candidateIntervals fileId = some candidates ∧
        candidates.covers entry := by
  unfold inCandidateIntervals CandidateIntervals.covers
  rw [hactive]
  cases input.candidateIntervals fileId with
  | none => simp
  | some candidates => simp

/-- **Candidate intervals are the exact intersection.**  For every entry selection and every
    list of path predicates whose queries succeed, the planner is left with normalized
    intervals for each file.  With a selection or a predicate, they cover just the entries of
    the file that the selection and a surviving basket of every predicate cover; and whether
    or not there is one, these are the entries of the file that baskets are clipped to. -/
theorem buildPredicateIntersection_covers
    (selection : Option (List (String × CandidateIntervals)))
    (pathPredicates : List PathPredicateBinding) (plan : PredicatePlan) (input : PlanInput)
    (hquery : ∀ predicate ∈ pathPredicates, ∃ rows, query predicate = .ok rows) :
    ∃ plan', buildPredicateIntersection query selection pathPredicates plan = .ok plan' ∧
      ∀ fileId : String,
        (∀ candidates, plan'.candidateIntervals.lookup fileId = some candidates →
          Normalized candidates.intervals) ∧
        (selection.isSome = true ∨ pathPredicates ≠ [] → ∀ entry : Nat,
          plan'.candidateIntervals.covers fileId entry ↔
            CandidateEntry query selection pathPredicates fileId entry) ∧
        ∀ entry : Nat,
          inCandidateIntervals (input.withPredicatePlan selection pathPredicates plan') fileId
              entry = true ↔
            CandidateEntry query selection pathPredicates fileId entry := by
  obtain ⟨plan', hplan⟩ : ∃ plan',
      buildPredicateIntersection query selection pathPredicates plan = .ok plan' :=
    intersectPredicates_ok hquery _ _
  refine ⟨plan', hplan, fun fileId => ⟨fun candidates _ => candidates.normalized, ?_, ?_⟩⟩
  · intro hactive entry
    exact covers_of_buildPredicateIntersection hplan hactive fileId entry
  · intro entry
    by_cases hactive : selection.isSome = true ∨ pathPredicates ≠ []
    · have hfilter : (input.withPredicatePlan selection pathPredicates
          plan').intervalFilterActive = true := by
        simpa [PlanInput.intervalFilterActive, PlanInput.withPredicatePlan] using hactive
      rw [inCandidateIntervals_iff hfilter]
      exact covers_of_buildPredicateIntersection hplan hactive fileId entry
    · -- Nothing restricts the entries, and nothing is clipped.
      rw [not_or, not_not] at hactive
      obtain ⟨hselection, rfl⟩ := hactive
      cases selection with
      | some sources => exact absurd rfl hselection
      | none =>
        simp [inCandidateIntervals, PlanInput.intervalFilterActive, PlanInput.withPredicatePlan,
          CandidateEntry]

end

/-! ### Two baskets and a selection -/

/-- Baskets of a file with the entries 0 to 9 and 10 to 19; the second one holds a 5. -/
def twoBasketRows : List PredicateBasketRow :=
  [⟨"a", ⟨0, 10⟩, ⟨some Ieee.Double.zero, some Ieee.Double.zero, 0, 0, 0⟩, none⟩,
    ⟨"a", ⟨10, 20⟩, ⟨some Ieee.Double.zero, some (Ieee.Double.ofInt 9), 0, 0, 0⟩, none⟩]

/-- With a selection from 5 to 15, what is left of the file is what both let through. -/
theorem equalsFive_selects :
    ∃ plan', buildPredicateIntersection (fun _ => .ok twoBasketRows)
        (some [("a", .ofIntervals [⟨5, 15⟩])]) [equalsFive] {} = .ok plan' ∧
      ∀ entry : Nat, plan'.candidateIntervals.covers "a" entry ↔
        CandidateEntry (fun _ => .ok twoBasketRows) (some [("a", .ofIntervals [⟨5, 15⟩])]) [equalsFive]
          "a" entry := by
  obtain ⟨plan', hplan, hfiles⟩ := buildPredicateIntersection_covers
    (some [("a", .ofIntervals [⟨5, 15⟩])]) [equalsFive] {} {} fun _ _ => ⟨twoBasketRows, rfl⟩
  exact ⟨plan', hplan, (hfiles "a").2.1 (Or.inl rfl)⟩

end RootLake.Dataset

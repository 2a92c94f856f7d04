/-
  RootLake/Dataset/PlanCoverage.lean
  ==================================
  **What the planned tasks cover.**

  An entry is covered by as many planned tasks as there are fetched rows that let it
  through: the row passes its Bloom filter, its basket holds the entry, and the entry
  is in a candidate interval of the file.  Joining candidates keeps that count, because
  a candidate is joined to the task that ends where it begins.

  The groups cut the task list into consecutive runs, so that drawing every group hands
  out every task once.
-/
import RootLake.Dataset.Plan

namespace RootLake.Dataset

/-! ### Covering -/

/-- The task holds the entry of the file. -/
def RootBasketTask.covers (task : RootBasketTask) (uri : String) (entry : Nat) : Prop :=
  task.rootUri = uri ∧ task.entryBegin.toNat ≤ entry ∧ entry < task.entryEnd.toNat

instance (task : RootBasketTask) (uri : String) (entry : Nat) :
    Decidable (task.covers uri entry) :=
  inferInstanceAs (Decidable (_ ∧ _))

/-- How many tasks hold the entry of the file. -/
def coverCount (tasks : List RootBasketTask) (uri : String) (entry : Nat) : Nat :=
  tasks.countP fun task => decide (task.covers uri entry)

theorem coverCount_cons (task : RootBasketTask) (tasks : List RootBasketTask) (uri : String)
    (entry : Nat) :
    coverCount (task :: tasks) uri entry =
      coverCount tasks uri entry + if task.covers uri entry then 1 else 0 := by
  unfold coverCount
  rw [List.countP_cons]
  simp only [decide_eq_true_eq]

/-- What holds of every row of one snapshot: its range is a range, and its event base is
    that of its URI. -/
structure RootBasketTask.Described (eventBaseOf : String → UInt64) (task : RootBasketTask) :
    Prop where
  proper : task.entryBegin.toNat ≤ task.entryEnd.toNat
  eventBase : task.eventBase = eventBaseOf task.rootUri

/-- The rows the snapshot filter selects: described, with disjoint ranges in each file. -/
structure SnapshotRows (eventBaseOf : String → UInt64) (rows : List BasketRow) : Prop where
  described : ∀ row ∈ rows, row.task.Described eventBaseOf
  disjoint : rows.Pairwise fun left right =>
    ∀ uri entry, left.task.covers uri entry → right.task.covers uri entry → False

theorem SnapshotRows.of_prefix {eventBaseOf : String → UInt64} {fetched rows : List BasketRow} (h : SnapshotRows eventBaseOf rows)
    (hfetched : fetched <+: rows) : SnapshotRows eventBaseOf fetched where
  described row hrow := h.described row (hfetched.subset hrow)
  disjoint := h.disjoint.sublist hfetched.sublist

section

variable (input : PlanInput)

/-- The entry is in a candidate interval of its file, when these are active. -/
def inCandidateIntervals (fileId : String) (entry : Nat) : Bool :=
  !input.intervalFilterActive ||
    match input.candidateIntervals fileId with
    | none => false
    | some candidates => candidates.intervals.any fun interval => decide (interval.covers entry)

/-- The row lets the entry through to the tasks. -/
def rowCovers (uri : String) (entry : Nat) (row : BasketRow) : Bool :=
  passesBloom input row && decide (row.task.covers uri entry) &&
    inCandidateIntervals input row.task.fileId entry

/-! ### Clipping to candidate intervals -/

/-- The task clipped to an interval holds what both hold. -/
theorem covers_clipped (task : RootBasketTask) (interval : EntryInterval) (uri : String)
    (entry : Nat) :
    ({ task with
        entryBegin := stdMax task.entryBegin interval.start
        entryEnd := stdMin task.entryEnd interval.stop } : RootBasketTask).covers uri entry ↔
      task.covers uri entry ∧ interval.covers entry := by
  unfold RootBasketTask.covers EntryInterval.covers
  dsimp only
  rw [toNat_stdMax, toNat_stdMin]
  constructor
  · rintro ⟨huri, hbegin, hend⟩
    exact ⟨⟨huri, by omega, by omega⟩, by omega, by omega⟩
  · rintro ⟨⟨huri, hbegin, hend⟩, hstart, hstop⟩
    exact ⟨huri, by omega, by omega⟩

theorem candidateTasks_described {eventBaseOf : String → UInt64}
    {task : RootBasketTask} (h : task.Described eventBaseOf) :
    ∀ candidate ∈ candidateTasks input task, candidate.Described eventBaseOf := by
  intro candidate hmem
  unfold candidateTasks at hmem
  by_cases hactive : input.intervalFilterActive = true
  · rw [if_pos hactive] at hmem
    cases hintervals : input.candidateIntervals task.fileId with
    | none =>
      rw [hintervals] at hmem
      cases hmem
    | some candidates =>
      rw [hintervals] at hmem
      obtain ⟨interval, -, hclip⟩ := List.mem_filterMap.mp hmem
      dsimp only at hclip
      split at hclip
      next => cases hclip
      next hproper =>
        cases hclip
        rw [UInt64.le_iff_toNat_le] at hproper
        exact ⟨Nat.le_of_lt (Nat.lt_of_not_le hproper), h.eventBase⟩
  · rw [if_neg hactive] at hmem
    rw [List.mem_singleton.mp hmem]
    exact h

/-- The candidates of a row hold an entry once if the row and an interval do. -/
theorem coverCount_candidateTasks (task : RootBasketTask) (uri : String) (entry : Nat) :
    coverCount (candidateTasks input task) uri entry =
      if task.covers uri entry ∧ inCandidateIntervals input task.fileId entry = true
      then 1 else 0 := by
  unfold candidateTasks inCandidateIntervals
  by_cases hactive : input.intervalFilterActive = true
  · rw [if_pos hactive, hactive]
    cases input.candidateIntervals task.fileId with
    | none => simp [coverCount]
    | some candidates =>
      unfold coverCount
      dsimp only
      rw [Count.countP_filterMap]
      have hclip : ∀ interval ∈ candidates.intervals,
          ((if stdMin task.entryEnd interval.stop ≤ stdMax task.entryBegin interval.start then none
            else some { task with
              entryBegin := stdMax task.entryBegin interval.start
              entryEnd := stdMin task.entryEnd interval.stop }).any
            fun clipped => decide (clipped.covers uri entry)) = true ↔
          (decide (task.covers uri entry) && decide (interval.covers entry)) = true := by
        intro interval _
        rw [Bool.and_eq_true, decide_eq_true_eq, decide_eq_true_eq, ← covers_clipped]
        split
        next hempty =>
          rw [UInt64.le_iff_toNat_le] at hempty
          constructor
          · intro hsome
            cases hsome
          · rintro ⟨-, hbegin, hend⟩
            dsimp only at hbegin hend
            omega
        next => simp
      rw [List.countP_congr hclip]
      by_cases htask : task.covers uri entry
      · simp only [htask, decide_true, Bool.true_and, true_and, Bool.not_true, Bool.false_or]
        rw [candidates.countP_covers]
        simp
      · simp [htask]
  · rw [if_neg hactive, coverCount_cons]
    simp [coverCount, hactive]

/-! ### Joining candidates -/

/-- A task and the candidate that continues it, joined, hold what both hold. -/
theorem covers_extendTask {previous candidate : RootBasketTask} {uri : String} {entry : Nat}
    (hprevious : previous.entryBegin.toNat ≤ previous.entryEnd.toNat)
    (hcandidate : candidate.entryBegin.toNat ≤ candidate.entryEnd.toNat)
    (hcontinues : continuesTask input previous candidate = true) :
    ((if (extendTask previous candidate).covers uri entry then 1 else 0) : Nat) =
      (if previous.covers uri entry then 1 else 0) +
        if candidate.covers uri entry then 1 else 0 := by
  simp only [continuesTask, Bool.and_eq_true, beq_iff_eq] at hcontinues
  obtain ⟨⟨⟨⟨⟨huri, -⟩, -⟩, hadjacent⟩, -⟩, -⟩ := hcontinues
  have hword : previous.entryEnd.toNat = candidate.entryBegin.toNat := by rw [hadjacent]
  simp only [RootBasketTask.covers, extendTask, ← huri]
  by_cases hfile : previous.rootUri = uri
  · simp only [hfile, true_and]
    split <;> split <;> split <;> omega
  · simp [hfile]

/-- One step of the join loop adds the candidate to the count and keeps the tasks
    described. -/
theorem scheduleCandidate_spec {eventBaseOf : String → UInt64}
    {tasks tasks' : List RootBasketTask} {candidate : RootBasketTask}
    (h : scheduleCandidate input tasks candidate = .ok tasks')
    (htasks : ∀ task ∈ tasks, task.Described eventBaseOf)
    (hcandidate : candidate.Described eventBaseOf) :
    (∀ task ∈ tasks', task.Described eventBaseOf) ∧
      ∀ uri entry, coverCount tasks' uri entry =
        coverCount tasks uri entry + if candidate.covers uri entry then 1 else 0 := by
  have hpush : (∀ task ∈ candidate :: tasks, task.Described eventBaseOf) ∧
      ∀ uri entry, coverCount (candidate :: tasks) uri entry =
        coverCount tasks uri entry + if candidate.covers uri entry then 1 else 0 :=
    ⟨List.forall_mem_cons.mpr ⟨hcandidate, htasks⟩, coverCount_cons candidate tasks⟩
  cases tasks with
  | nil =>
    cases h
    exact hpush
  | cons previous older =>
    simp only [scheduleCandidate] at h
    by_cases hcontinues : continuesTask input previous candidate = true
    · rw [if_pos hcontinues] at h
      split at h
      next => cases h
      next =>
        cases h
        obtain ⟨hprevious, holder⟩ := List.forall_mem_cons.mp htasks
        constructor
        · refine List.forall_mem_cons.mpr ⟨⟨?_, hprevious.eventBase⟩, holder⟩
          have hadjacent : previous.entryEnd = candidate.entryBegin := by
            simp only [continuesTask, Bool.and_eq_true, beq_iff_eq] at hcontinues
            exact hcontinues.1.1.2
          have hproper := hprevious.proper
          have hnext := hcandidate.proper
          rw [← hadjacent] at hnext
          exact Nat.le_trans hproper hnext
        · intro uri entry
          rw [coverCount_cons, coverCount_cons,
            covers_extendTask input hprevious.proper hcandidate.proper hcontinues]
          omega
    · rw [if_neg hcontinues] at h
      cases h
      exact hpush

theorem scheduleCandidates_spec {eventBaseOf : String → UInt64}
    {candidates : List RootBasketTask}
    (hcandidates : ∀ task ∈ candidates, task.Described eventBaseOf) :
    ∀ {tasks tasks' : List RootBasketTask},
      scheduleCandidates input tasks candidates = .ok tasks' →
      (∀ task ∈ tasks, task.Described eventBaseOf) →
      (∀ task ∈ tasks', task.Described eventBaseOf) ∧
        ∀ uri entry, coverCount tasks' uri entry =
          coverCount tasks uri entry + coverCount candidates uri entry := by
  induction candidates with
  | nil =>
    intro tasks tasks' h htasks
    cases h
    exact ⟨htasks, fun _ _ => rfl⟩
  | cons candidate rest ih =>
    intro tasks tasks' h htasks
    obtain ⟨hcandidate, hrest⟩ := List.forall_mem_cons.mp hcandidates
    simp only [scheduleCandidates] at h
    cases hstep : scheduleCandidate input tasks candidate with
    | error e =>
      rw [hstep] at h
      cases h
    | ok between =>
      rw [hstep] at h
      obtain ⟨hbetween, hcount⟩ := scheduleCandidate_spec input hstep htasks hcandidate
      obtain ⟨htasks', hcount'⟩ := ih hrest h hbetween
      refine ⟨htasks', ?_⟩
      intro uri entry
      rw [hcount', hcount, coverCount_cons]
      omega

/-! ### The task loop -/

/-- Counting Bloom bytes leaves the tasks alone. -/
theorem countBloom_tasks (state : PlanState) (row : BasketRow) :
    (countBloom input state row).tasks = state.tasks := by
  unfold countBloom
  cases row.bloom with
  | none => rfl
  | some bytes =>
    dsimp only
    split <;> rfl

/-- A row adds to the count what it lets through. -/
theorem planRow_spec {eventBaseOf : String → UInt64}
    {state state' : PlanState} {row : BasketRow} (h : planRow input state row = .ok state')
    (hrow : row.task.Described eventBaseOf)
    (htasks : ∀ task ∈ state.tasks, task.Described eventBaseOf) :
    (∀ task ∈ state'.tasks, task.Described eventBaseOf) ∧
      ∀ uri entry, coverCount state'.tasks uri entry =
        coverCount state.tasks uri entry + if rowCovers input uri entry row = true then 1 else 0 := by
  unfold planRow at h
  split at h
  next => cases h
  next =>
    have hsame : (countBloom input state row).tasks = state.tasks := countBloom_tasks input state row
    generalize countBloom input state row = counted at h hsame
    dsimp only at h
    split at h
    next hbloom =>
      cases h
      refine ⟨by rw [hsame]; exact htasks, ?_⟩
      intro uri entry
      have hnone : rowCovers input uri entry row = false := by
        rw [Bool.not_eq_true'] at hbloom
        simp [rowCovers, hbloom]
      rw [hsame, hnone]
      simp
    next hbloom =>
      have hpasses : passesBloom input row = true := by simpa using hbloom
      have hcovers : ∀ uri entry,
          (if rowCovers input uri entry row = true then 1 else 0) =
            coverCount (candidateTasks input row.task) uri entry := by
        intro uri entry
        rw [coverCount_candidateTasks]
        simp [rowCovers, hpasses]
      have hdescribed := candidateTasks_described input hrow
      simp only [hcovers]
      cases hcandidates : candidateTasks input row.task with
      | nil =>
        rw [hcandidates] at h
        cases h
        exact ⟨by rw [hsame]; exact htasks, fun _ _ => by rw [hsame]; rfl⟩
      | cons candidate rest =>
        rw [hcandidates] at h hdescribed
        dsimp only at h
        split at h
        next => cases h
        next counted' hcount =>
          have hsame' : counted'.tasks = counted.tasks := by
            unfold countBasket at hcount
            split at hcount
            next => cases hcount
            next => cases hcount; rfl
          split at h
          next => cases h
          next tasks hschedule =>
            cases h
            rw [hsame', hsame] at hschedule
            exact scheduleCandidates_spec input hdescribed hschedule htasks

theorem planRows_spec {eventBaseOf : String → UInt64}
    {rows : List BasketRow}
    (hrows : ∀ row ∈ rows, row.task.Described eventBaseOf) :
    ∀ {state state' : PlanState} {fetched : List BasketRow},
      planRows input state rows = .ok (state', fetched) →
      (∀ task ∈ state.tasks, task.Described eventBaseOf) →
      fetched <+: rows ∧ (input.canStopAfterRowLimit = false → fetched = rows) ∧
        (∀ task ∈ state'.tasks, task.Described eventBaseOf) ∧
        ∀ uri entry, coverCount state'.tasks uri entry =
          coverCount state.tasks uri entry + fetched.countP (rowCovers input uri entry) := by
  induction rows with
  | nil =>
    intro state state' fetched h htasks
    cases h
    exact ⟨List.prefix_refl _, fun _ => rfl, htasks, fun _ _ => rfl⟩
  | cons row rest ih =>
    intro state state' fetched h htasks
    obtain ⟨hrow, hrest⟩ := List.forall_mem_cons.mp hrows
    simp only [planRows] at h
    cases hstep : planRow input state row with
    | error e =>
      rw [hstep] at h
      cases h
    | ok between =>
      rw [hstep] at h
      obtain ⟨hbetween, hcount⟩ := planRow_spec input hstep hrow htasks
      dsimp only at h
      split at h
      next hstop =>
        cases h
        refine ⟨⟨rest, rfl⟩, ?_, hbetween, ?_⟩
        · intro hcan
          simp [hcan] at hstop
        · intro uri entry
          rw [hcount, List.countP_singleton]
      next =>
        cases hloop : planRows input between rest with
        | error e =>
          rw [hloop] at h
          cases h
        | ok result =>
          obtain ⟨last, more⟩ := result
          rw [hloop] at h
          cases h
          obtain ⟨hfetched, hall, htasks', hcount'⟩ := ih hrest hloop hbetween
          refine ⟨(List.prefix_cons_inj row).mpr hfetched, ?_, htasks', ?_⟩
          · intro hcan
            rw [hall hcan]
          · intro uri entry
            rw [hcount', hcount, List.countP_cons]
            omega

/-- Distinct rows of a snapshot let different entries through. -/
theorem countP_rowCovers {eventBaseOf : String → UInt64}
    {rows : List BasketRow} (h : SnapshotRows eventBaseOf rows) (uri : String)
    (entry : Nat) :
    rows.countP (rowCovers input uri entry) =
      if ∃ row ∈ rows, rowCovers input uri entry row = true then 1 else 0 := by
  refine Count.countP_of_exclusive (h.disjoint.imp ?_)
  intro left right hdisjoint hleft hright
  simp only [rowCovers, Bool.and_eq_true, decide_eq_true_eq] at hleft hright
  exact hdisjoint uri entry hleft.1.2 hright.1.2

/-! ### Groups -/

/-- The positions of a group. -/
def RootFileTaskGroup.positions (group : RootFileTaskGroup) : List Nat :=
  List.range' group.first (group.last - group.first)

/-- The groups take the positions in order, without a gap. -/
theorem buildGroupsFrom_positions :
    ∀ (rounds first : Nat) (tasks : List RootBasketTask), tasks.length ≤ rounds →
      (buildGroupsFrom input rounds first tasks).flatMap RootFileTaskGroup.positions =
        List.range' first tasks.length := by
  intro rounds
  induction rounds with
  | zero =>
    intro first tasks hrounds
    rw [List.eq_nil_of_length_eq_zero (Nat.le_zero.mp hrounds)]
    rfl
  | succ rounds ih =>
    intro first tasks hrounds
    cases tasks with
    | nil => rfl
    | cons task rest =>
      generalize hrun : (rest.takeWhile fun other => other.rootUri == task.rootUri) = run
      have hlength : run.length ≤ rest.length := by
        rw [← hrun]
        exact (List.takeWhile_prefix _).length_le
      simp only [buildGroupsFrom, hrun, List.flatMap_cons]
      rw [ih _ _ (by rw [List.length_drop]; rw [List.length_cons] at hrounds; omega),
        List.length_drop, RootFileTaskGroup.positions, List.length_cons]
      dsimp only
      rw [show first + 1 + run.length - first = 1 + run.length by omega,
        Nat.add_assoc first, List.range'_append_1]
      congr 1
      omega

theorem map_getD_range' (tasks : List RootBasketTask) :
    (List.range' 0 tasks.length).map (fun index => tasks.getD index default) = tasks := by
  refine List.ext_getElem (by simp) ?_
  intro index hleft hright
  simp [List.getElem_range', hright]

/-- **The groups hand out the task list.** -/
theorem flatMap_enter_remaining (global : DatasetGlobalState)
    (hgroups : global.taskGroups = buildFileTaskGroups input global.tasks) :
    global.taskGroups.flatMap (fun group => (TaskCursor.enter group).remaining global) =
      global.tasks := by
  have hpositions : ∀ group : RootFileTaskGroup,
      (TaskCursor.enter group).remaining global =
        group.positions.map fun index => global.tasks.getD index default := fun _ => rfl
  simp only [hpositions]
  rw [← List.map_flatMap, hgroups, buildFileTaskGroups,
    buildGroupsFrom_positions input _ 0 global.tasks (Nat.le_refl _), map_getD_range']

end

end RootLake.Dataset

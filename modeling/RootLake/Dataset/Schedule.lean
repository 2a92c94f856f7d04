/-
  RootLake/Dataset/Schedule.lean
  ==============================
  **Claiming tasks from several workers.**

  Workers share the group counter and the count of skipped entries; a worker draws a
  group by an atomic increment of the counter and walks through its tasks alone.  The
  steps of different workers interleave freely.

  The schedule refines the generic hand-out of work in batches: the groups not yet
  drawn are the pool, the rest of a worker's group is its hand.  What has been claimed is
  what has been taken, clipped.
-/
import RootLake.Dataset.Clip
import RootLake.Lib.Dispatch

namespace RootLake.Dataset

open RootLake.Runs RootLake.Dispatch

variable {W : Type}

/-! ### States and steps -/

/-- The shared counters, the position of every worker, and the tasks claimed so far. -/
structure ScheduleState (W : Type) where
  nextGroup : Nat := 0
  skippedEntries : UInt64 := 0
  cursors : W → TaskCursor := fun _ => {}
  claimed : List (W × RootBasketTask) := []

/-- The entries of the claimed tasks, with their files. -/
def ScheduleState.processed (s : ScheduleState W) : List (String × UInt64) :=
  s.claimed.flatMap fun claim => claim.2.entries.map fun entry => (claim.2.rootUri, entry)

/-- All groups have been drawn and every worker is through with its last one. -/
def ScheduleState.Finished (global : DatasetGlobalState) (s : ScheduleState W) : Prop :=
  global.taskGroups.length ≤ s.nextGroup ∧ ∀ w, (s.cursors w).needsGroup

instance [Fintype W] (global : DatasetGlobalState) (s : ScheduleState W) :
    Decidable (s.Finished global) :=
  inferInstanceAs (Decidable (_ ∧ _))

/-- Claiming what is left of a task adds its entries. -/
theorem length_processed_claim (s : ScheduleState W) (w : W) (left : Option RootBasketTask) :
    (ScheduleState.processed
      { s with claimed := s.claimed ++ (left.map fun task => (w, task)).toList }).length =
        s.processed.length + leftEntries left := by
  cases left with
  | none => simp [ScheduleState.processed, leftEntries]
  | some task => simp [ScheduleState.processed, leftEntries]

/-- An entry is processed once for each claimed task that holds it. -/
theorem count_processed (s : ScheduleState W) (uri : String) (entry : UInt64) :
    s.processed.count (uri, entry) =
      coverCount (s.claimed.map Prod.snd) uri entry.toNat := by
  have hclaim : ∀ claim : W × RootBasketTask,
      (claim.2.entries.map fun entry => (claim.2.rootUri, entry)).count (uri, entry) =
        if decide (claim.2.covers uri entry.toNat) = true then 1 else 0 := by
    intro claim
    simp only [decide_eq_true_eq]
    by_cases huri : claim.2.rootUri = uri
    · have hcovers : claim.2.covers uri entry.toNat ↔
          claim.2.entryBegin.toNat ≤ entry.toNat ∧ entry.toNat < claim.2.entryEnd.toNat :=
        ⟨fun h => h.2, fun h => ⟨huri, h⟩⟩
      rw [huri, List.count_map_of_injective _ _ (Prod.mk_right_injective uri),
        claim.2.count_entries]
      exact if_congr hcovers.symm rfl rfl
    · rw [if_neg (fun h => huri h.1)]
      refine List.count_eq_zero_of_not_mem ?_
      intro hmem
      obtain ⟨_, -, heq⟩ := List.mem_map.mp hmem
      exact huri (Prod.mk.inj heq).1
  unfold ScheduleState.processed coverCount
  rw [List.count_flatMap, List.countP_map, ← Count.sum_map_indicator]
  simp only [Function.comp_def, hclaim]

variable [DecidableEq W]

/-- A round of the loop of `ClaimTask`, in a worker: draw a group, or take the next task
    of the group in hand.  A draw behind the last group leaves the worker without one. -/
def scheduleStep (global : DatasetGlobalState) (s : ScheduleState W) (w : W) :
    ScheduleState W :=
  let cursor := s.cursors w
  if cursor.needsGroup then
    match global.taskGroups[s.nextGroup]? with
    | none => { s with nextGroup := s.nextGroup + 1 }
    | some group =>
        { s with
          nextGroup := s.nextGroup + 1
          cursors := Function.update s.cursors w (TaskCursor.enter group) }
  else
    let clipped := clipTask global (cursor.task global)
    { s with
      skippedEntries := s.skippedEntries + clipped.2
      cursors := Function.update s.cursors w cursor.advance
      claimed := s.claimed ++ (clipped.1.map fun task => (w, task)).toList }

/-- The runs of the workers over a plan. -/
def scheduling (W : Type) [DecidableEq W] (global : DatasetGlobalState) :
    System (ScheduleState W) W where
  init s := s = {}
  step s w t := t = scheduleStep global s w

/-- The worker's step takes no task, or takes one whose event end fits. -/
def TakesFittingTask (global : DatasetGlobalState) (s : ScheduleState W) (w : W) : Prop :=
  (s.cursors w).needsGroup ∨ EventEndFits global ((s.cursors w).task global)

/-- The entries of the planned tasks. -/
def plannedEntries (global : DatasetGlobalState) : Nat :=
  (global.tasks.map fun task => task.entries.length).sum

/-! ### The schedule as a hand-out of work -/

/-- The tasks of the groups, as batches of work. -/
def groupWork (global : DatasetGlobalState) : List (List RootBasketTask) :=
  global.taskGroups.map fun group => (TaskCursor.enter group).remaining global

/-- The pool a schedule state stands for. -/
structure Dispatched (global : DatasetGlobalState) (s : ScheduleState W)
    (p : Pool W RootBasketTask) : Prop where
  batches : p.batches = (groupWork global).drop s.nextGroup
  hand : p.hand = fun w => (s.cursors w).remaining global
  claimed : s.claimed.map Prod.snd = p.taken.filterMap fun task => (clipTask global task).1
  skipped : UInt64.ofNat s.processed.length + s.skippedEntries =
    UInt64.ofNat (p.taken.map fun task => task.entries.length).sum
  fits : ∀ task ∈ p.taken, EventEndFits global task

/-- **Step lemma**: a step of a worker is a step of the hand-out. -/
theorem scheduleStep_dispatched {global : DatasetGlobalState} [Fintype W]
    (hproper : ∀ task ∈ (groupWork global).flatten,
      task.entryBegin.toNat ≤ task.entryEnd.toNat)
    {s : ScheduleState W} {p : Pool W RootBasketTask} {w : W}
    (hreach : (dispatch W (groupWork global)).Reachable p) (h : Dispatched global s p)
    (hok : TakesFittingTask global s w) :
    ∃ q, Pool.Step p w q ∧ Dispatched global (scheduleStep global s w) q := by
  have hhand : p.hand w = (s.cursors w).remaining global := by rw [h.hand]
  unfold scheduleStep
  dsimp only
  by_cases hneeds : (s.cursors w).needsGroup
  · rw [if_pos hneeds]
    rw [TaskCursor.remaining_of_needsGroup global hneeds] at hhand
    cases hgroup : global.taskGroups[s.nextGroup]? with
    | none =>
      have hlength : global.taskGroups.length ≤ s.nextGroup := List.getElem?_eq_none_iff.mp hgroup
      have hlength' : (groupWork global).length ≤ s.nextGroup := by
        rw [groupWork, List.length_map]
        exact hlength
      have hempty : p.batches = [] := by
        rw [h.batches]
        exact List.drop_eq_nil_of_le hlength'
      refine ⟨p, .idle hempty hhand, ?_, h.hand, h.claimed, h.skipped, h.fits⟩
      rw [hempty]
      exact (List.drop_eq_nil_of_le (Nat.le_succ_of_le hlength')).symm
    | some group =>
      obtain ⟨hlt, hget⟩ := List.getElem?_eq_some_iff.mp hgroup
      have hdrop : p.batches = (TaskCursor.enter group).remaining global ::
          (groupWork global).drop (s.nextGroup + 1) := by
        have hlt' : s.nextGroup < (groupWork global).length := by
          rw [groupWork, List.length_map]
          exact hlt
        rw [h.batches, List.drop_eq_getElem_cons hlt']
        simp only [groupWork, List.getElem_map, hget]
      refine ⟨_, .draw hdrop hhand, rfl, ?_, h.claimed, h.skipped, h.fits⟩
      funext v
      dsimp only
      rw [h.hand]
      by_cases hv : v = w
      · subst hv
        rw [Function.update_self, Function.update_self]
      · rw [Function.update_of_ne hv, Function.update_of_ne hv]
  · rw [if_neg hneeds]
    rw [TaskCursor.remaining_of_not_needsGroup global hneeds] at hhand
    have hfits : EventEndFits global ((s.cursors w).task global) := hok.resolve_left hneeds
    have hmem : (s.cursors w).task global ∈ (groupWork global).flatten := by
      refine Pool.mem_work_of_mem_hand hreach (w := w) ?_
      rw [hhand]
      exact List.mem_cons_self
    generalize (s.cursors w).task global = task at hhand hfits hmem ⊢
    have hclip := clipTask_clipsTo global (hproper task hmem) hfits
    refine ⟨_, .take hhand, h.batches, ?_, ?_, ?_, ?_⟩
    · funext v
      dsimp only
      rw [h.hand]
      by_cases hv : v = w
      · subst hv
        rw [Function.update_self, Function.update_self]
      · rw [Function.update_of_ne hv, Function.update_of_ne hv]
    · dsimp only
      rw [List.map_append, h.claimed, List.filterMap_append]
      cases hleft : (clipTask global task).1 with
      | none => simp [hleft]
      | some left => simp [hleft]
    · have hlength := length_processed_claim s w (clipTask global task).1
      change UInt64.ofNat (ScheduleState.processed
        { s with claimed := s.claimed ++
          ((clipTask global task).1.map fun task => (w, task)).toList }).length +
        (s.skippedEntries + (clipTask global task).2) = _
      rw [hlength, UInt64.ofNat_add, List.map_append, List.sum_append, UInt64.ofNat_add,
        ← h.skipped, List.map_singleton, List.sum_singleton, ← hclip.skipped]
      grind
    · intro taken htaken
      rcases List.mem_append.mp htaken with hold | hnew
      · exact h.fits taken hold
      · rw [List.mem_singleton.mp hnew]
        exact hfits

/-- **Refinement**: every schedule is a hand-out of the tasks of the groups. -/
theorem schedule_dispatched {global : DatasetGlobalState} [Fintype W]
    (hproper : ∀ task ∈ (groupWork global).flatten,
      task.entryBegin.toNat ≤ task.entryEnd.toNat)
    {s : ScheduleState W} (h : (scheduling W global).Reached (TakesFittingTask global) s) :
    ∃ p, (dispatch W (groupWork global)).Reachable p ∧ Dispatched global s p := by
  refine h.simulates ?_ ?_
  · rintro _ rfl
    refine ⟨_, rfl, rfl, ?_, rfl, rfl, fun task htask => by cases htask⟩
    funext w
    rfl
  · rintro s w _ p hreach hp hok rfl
    obtain ⟨q, hstep, hq⟩ := scheduleStep_dispatched hproper hreach hp hok
    exact ⟨w, q, hstep, hq⟩

/-! ### What the workers process -/

/-- Clipping taken tasks keeps the entries in both ranges. -/
theorem coverCount_clipped {global : DatasetGlobalState} {eventBaseOf : String → UInt64}
    {taken : List RootBasketTask} (hdescribed : ∀ task ∈ taken, task.Described eventBaseOf)
    (hfits : ∀ task ∈ taken, EventEndFits global task) (uri : String) (entry : Nat)
    [Decidable (InEventRange global (eventBaseOf uri) entry ∧ InEntryRange global entry)] :
    coverCount (taken.filterMap fun task => (clipTask global task).1) uri entry =
      if InEventRange global (eventBaseOf uri) entry ∧ InEntryRange global entry
      then coverCount taken uri entry else 0 := by
  have hclip : ∀ task ∈ taken,
      ((clipTask global task).1.any fun left => decide (left.covers uri entry)) = true ↔
        task.covers uri entry ∧ InEventRange global (eventBaseOf uri) entry ∧
          InEntryRange global entry := by
    intro task htask
    have h := (clipTask_clipsTo global (hdescribed task htask).proper (hfits task htask)).covers
      uri entry
    have hany : ((clipTask global task).1.any fun left => decide (left.covers uri entry)) = true ↔
        ∃ left, (clipTask global task).1 = some left ∧ left.covers uri entry := by
      cases (clipTask global task).1 <;> simp
    rw [hany, h, (hdescribed task htask).eventBase]
    refine and_congr_right ?_
    rintro ⟨huri, -⟩
    rw [huri]
  unfold coverCount
  rw [Count.countP_filterMap]
  split
  next hin =>
    refine List.countP_congr ?_
    intro task htask
    rw [hclip task htask, decide_eq_true_eq]
    exact ⟨fun h => h.1, fun h => ⟨h, hin⟩⟩
  next hout =>
    refine List.countP_eq_zero.mpr ?_
    intro task htask hany
    exact hout ((hclip task htask).mp hany).2

/-! ### Exactly the wanted entries -/

/-- What the query asks for: the entry is in a surviving basket of the file, in the
    candidate intervals of the file when these are active, in the event range and in the
    entry range. -/
def Wanted (input : PlanInput) (eventBaseOf : String → UInt64) (rows : List BasketRow)
    (uri : String) (entry : UInt64) : Prop :=
  (∃ row ∈ rows, rowCovers input uri entry.toNat row = true) ∧
    InEventRange input.global (eventBaseOf uri) entry.toNat ∧
    InEntryRange input.global entry.toNat

/-- The planned tasks hold an entry once if a fetched row lets it through. -/
theorem plan_spec {input : PlanInput} {rows fetched : List BasketRow}
    {global : DatasetGlobalState} {state : PlanState} {eventBaseOf : String → UInt64}
    (hplan : plan input rows = .ok (global, state, fetched))
    (hrows : SnapshotRows eventBaseOf rows) :
    fetched <+: rows ∧ (input.canStopAfterRowLimit = false → fetched = rows) ∧
      (∀ task ∈ global.tasks, task.Described eventBaseOf) ∧
      (groupWork global).flatten = global.tasks ∧
      ∀ uri entry, coverCount global.tasks uri entry =
        if ∃ row ∈ fetched, rowCovers input uri entry row = true then 1 else 0 := by
  unfold plan at hplan
  cases hloop : planRows input {} rows with
  | error e =>
    rw [hloop] at hplan
    cases hplan
  | ok result =>
    obtain ⟨last, more⟩ := result
    rw [hloop] at hplan
    cases hplan
    obtain ⟨hfetched, hall, hdescribed, hcount⟩ :=
      planRows_spec input hrows.described hloop (fun task htask => by cases htask)
    refine ⟨hfetched, hall, ?_, ?_, ?_⟩
    · intro task htask
      exact hdescribed task (List.mem_reverse.mp htask)
    · exact flatMap_enter_remaining input _ rfl
    · intro uri entry
      rw [← countP_rowCovers input (hrows.of_prefix hfetched)]
      have hreverse : coverCount state.tasks.reverse uri entry =
          coverCount state.tasks uri entry := List.countP_reverse
      change coverCount state.tasks.reverse uri entry = _
      rw [hreverse, hcount uri entry]
      exact Nat.zero_add _

/-- **The schedule is exact.**  In every run over a plan in which no task is taken whose
    event end wraps, no entry is processed twice and none that is not wanted; when all groups
    are used up, every wanted entry has been processed, and processed and skipped entries
    add up to the planned ones. -/
theorem schedule_processes_wanted [Fintype W] {input : PlanInput} {rows fetched : List BasketRow}
    {global : DatasetGlobalState} {state : PlanState} {eventBaseOf : String → UInt64}
    (hplan : plan input rows = .ok (global, state, fetched))
    (hrows : SnapshotRows eventBaseOf rows) {s : ScheduleState W}
    (hs : (scheduling W global).Reached (TakesFittingTask global) s) :
    (fetched <+: rows ∧ (input.canStopAfterRowLimit = false → fetched = rows)) ∧
      s.processed.Nodup ∧
      (∀ uri entry, (uri, entry) ∈ s.processed → Wanted input eventBaseOf fetched uri entry) ∧
      (s.Finished global →
        (∀ uri entry, (uri, entry) ∈ s.processed ↔ Wanted input eventBaseOf fetched uri entry) ∧
          UInt64.ofNat s.processed.length + s.skippedEntries =
            UInt64.ofNat (plannedEntries global)) := by
  classical
  obtain ⟨hfetched, hall, hdescribed, hwork, hcover⟩ := plan_spec hplan hrows
  have hranges : ∀ uri entry,
      (InEventRange global (eventBaseOf uri) entry ∧ InEntryRange global entry) ↔
        InEventRange input.global (eventBaseOf uri) entry ∧ InEntryRange input.global entry := by
    unfold plan at hplan
    cases hloop : planRows input {} rows with
    | error e =>
      rw [hloop] at hplan
      cases hplan
    | ok result =>
      rw [hloop] at hplan
      cases hplan
      exact fun _ _ => Iff.rfl
  obtain ⟨p, hreach, hp⟩ := schedule_dispatched
    (fun task htask => (hdescribed task (hwork ▸ htask)).proper) hs
  have htaken : p.taken.Subperm global.tasks := hwork ▸ Pool.taken_subperm_of_reachable hreach
  have hcount : ∀ uri entry, s.processed.count (uri, entry) =
      if InEventRange input.global (eventBaseOf uri) entry.toNat ∧
          InEntryRange input.global entry.toNat
      then coverCount p.taken uri entry.toNat else 0 := by
    intro uri entry
    rw [count_processed, hp.claimed,
      coverCount_clipped (fun task htask => hdescribed task (htaken.subset htask)) hp.fits]
    simp only [hranges]
  have hbound : ∀ uri entry, coverCount p.taken uri entry ≤
      if ∃ row ∈ fetched, rowCovers input uri entry row = true then 1 else 0 := by
    intro uri entry
    rw [← hcover uri entry]
    exact htaken.countP_le _
  refine ⟨⟨hfetched, hall⟩, ?_, ?_, ?_⟩
  · refine List.nodup_iff_count_le_one.mpr ?_
    rintro ⟨uri, entry⟩
    have hle := hbound uri entry.toNat
    rw [hcount]
    split_ifs at hle ⊢ <;> omega
  · intro uri entry hmem
    have hpos : 0 < s.processed.count (uri, entry) := List.count_pos_iff.mpr hmem
    have hle := hbound uri entry.toNat
    rw [hcount] at hpos
    split_ifs at hpos with hin
    · split_ifs at hle with hrow
      · exact ⟨hrow, hin⟩
      · omega
    · omega
  · rintro ⟨hdrawn, hidle⟩
    have hbatches : p.batches = [] := by
      rw [hp.batches, groupWork]
      exact List.drop_eq_nil_of_le (by rw [List.length_map]; exact hdrawn)
    have hhands : ∀ w, p.hand w = [] := by
      intro w
      rw [hp.hand]
      exact TaskCursor.remaining_of_needsGroup global (hidle w)
    have hperm : p.taken.Perm global.tasks :=
      hwork ▸ Pool.taken_perm_of_finished hreach hbatches hhands
    constructor
    · intro uri entry
      rw [← List.count_pos_iff, hcount, show coverCount p.taken uri entry.toNat =
        coverCount global.tasks uri entry.toNat from hperm.countP_eq _, hcover]
      unfold Wanted
      split_ifs with hin hrow
      · exact ⟨fun _ => ⟨hrow, hin⟩, fun _ => Nat.one_pos⟩
      · exact ⟨fun h => absurd h (Nat.lt_irrefl 0), fun h => absurd h.1 hrow⟩
      · exact ⟨fun h => absurd h (Nat.lt_irrefl 0), fun h => absurd h.2 hin⟩
    · rw [hp.skipped, plannedEntries]
      exact congrArg UInt64.ofNat (hperm.map _).sum_eq

/-- A step that takes no task, or one whose event end is seen to be a word. -/
def fittingStep (global : DatasetGlobalState) (s : ScheduleState W) (w : W) :
    Option (ScheduleState W) :=
  let task := (s.cursors w).task global
  if (s.cursors w).needsGroup ∨ task.eventBase.toNat + task.entryEnd.toNat < 2 ^ 64 then
    some (scheduleStep global s w)
  else none

theorem reached_of_fittingSteps {global : DatasetGlobalState} {workers : List W}
    {s : ScheduleState W} (h : runSteps (fittingStep global) {} workers = some s) :
    (scheduling W global).Reached (TakesFittingTask global) s := by
  refine System.reached_of_runSteps ?_ (.init rfl) h
  intro s w t hnext
  unfold fittingStep at hnext
  dsimp only at hnext
  split at hnext
  next hfits =>
    cases hnext
    exact ⟨hfits.imp_right fun hend _ => Or.inl hend, rfl⟩
  next => cases hnext

/-- A basket of the entries `[first, last)` of a file. -/
def basketRow (uri : String) (eventBase first last : UInt64) : BasketRow where
  task :=
    { fileId := uri, rootUri := uri, treeName := "Events", schemaId := "s"
      eventBase := eventBase, entryBegin := first, entryEnd := last, valueCount := last - first
      physicalOffset := first, compressedSize := last - first, basketCount := 1
      fileTotalEntries := 4, fileTotalBaskets := 2 }

/-- Two files behind each other, of which the events 1 to 5 are asked for. -/
def twoFilesInput : PlanInput where
  global := { hasEventRange := true, eventLower := 1, eventUpper := 5 }

def twoFilesRows : List BasketRow :=
  [basketRow "a.root" 0 0 2, basketRow "a.root" 0 2 4, basketRow "b.root" 4 0 4]

def twoFilesBase (uri : String) : UInt64 := if uri = "a.root" then 0 else 4

theorem twoFilesRows_snapshot : SnapshotRows twoFilesBase twoFilesRows where
  described := by
    intro row hrow
    simp only [twoFilesRows, List.mem_cons, List.not_mem_nil, or_false] at hrow
    rcases hrow with rfl | rfl | rfl <;> exact ⟨by decide, by decide⟩
  disjoint := by
    simp only [twoFilesRows, List.pairwise_cons, List.mem_cons, List.not_mem_nil, or_false,
      forall_eq_or_imp, forall_eq, false_imp_iff, implies_true, List.Pairwise.nil, and_true]
    refine ⟨⟨?_, ?_⟩, ?_⟩
    · rintro uri entry ⟨-, -, hlt⟩ ⟨-, hge, -⟩
      exact Nat.lt_irrefl _ (Nat.lt_of_lt_of_le hlt hge)
    · rintro uri entry ⟨ha, -⟩ ⟨hb, -⟩
      exact absurd (ha.trans hb.symm) (by decide)
    · rintro uri entry ⟨ha, -⟩ ⟨hb, -⟩
      exact absurd (ha.trans hb.symm) (by decide)

/-- Two workers that take turns process exactly the events asked for. -/
theorem schedule_processes_two_files :
    ∃ global state, plan twoFilesInput twoFilesRows = .ok (global, state, twoFilesRows) ∧
      ∃ s : ScheduleState (Fin 2),
        runSteps (fittingStep global) {} [0, 1, 0, 1, 0, 1] = some s ∧
          s.processed = [("a.root", 1), ("a.root", 2), ("a.root", 3), ("b.root", 0),
            ("b.root", 1)] ∧
          ∀ uri entry, (uri, entry) ∈ s.processed ↔
            Wanted twoFilesInput twoFilesBase twoFilesRows uri entry := by
  refine ⟨_, _, rfl, _, rfl, by decide, ?_⟩
  exact ((schedule_processes_wanted rfl twoFilesRows_snapshot
    (@reached_of_fittingSteps _ _ _ [0, 1, 0, 1, 0, 1] _ rfl)).2.2.2 (by decide)).1

/-- A file whose two events are the last two words, and a filter `event_fk < 2 ^ 64 - 1`. -/
def lastEventsInput : PlanInput where
  global := { hasEventRange := true, eventUpper := 0xFFFFFFFFFFFFFFFE }

def lastEventsRows : List BasketRow := [basketRow "z.root" 0xFFFFFFFFFFFFFFFE 0 2]

theorem lastEventsRows_snapshot : SnapshotRows (fun _ => 0xFFFFFFFFFFFFFFFE) lastEventsRows where
  described := by
    intro row hrow
    rw [List.mem_singleton.mp hrow]
    exact ⟨by decide, rfl⟩
  disjoint := List.pairwise_singleton _ _

/-- The exclusive end of that file's events wraps to zero: the scan is through without having
    processed the first of them, which the filter asks for. -/
theorem schedule_loses_last_events :
    ∃ global state, plan lastEventsInput lastEventsRows = .ok (global, state, lastEventsRows) ∧
      SnapshotRows (fun _ => 0xFFFFFFFFFFFFFFFE) lastEventsRows ∧
      ∃ s : ScheduleState (Fin 1), (scheduling (Fin 1) global).Reachable s ∧
        s.Finished global ∧
        Wanted lastEventsInput (fun _ => 0xFFFFFFFFFFFFFFFE) lastEventsRows "z.root" 0 ∧
        ("z.root", 0) ∉ s.processed := by
  refine ⟨_, _, rfl, lastEventsRows_snapshot, _,
    .step (.step (.init rfl) trivial (l := 0) rfl) trivial (l := 0) rfl, by decide, ?_, by decide⟩
  refine ⟨⟨_, List.mem_cons_self, by decide⟩, ?_, ?_⟩
  · intro _
    decide
  · intro hknown
    cases hknown

end RootLake.Dataset

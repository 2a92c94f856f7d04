/-
  RootLake/Direct/FileScheduler.lean
  ==================================
  **Handing files to the workers of a direct scan.**

  A scan of several files shares one scheduler.  `Claim` draws the next file number from an
  atomic counter, passes over a file outside the source range, and hands out any other
  one.  A worker records every file it was handed once: completed, failed or unavailable.
  `AllFilesFinished` adds up the counters of the files that are done.

  A step of the model is one atomic step of one worker, and the steps of different workers
  interleave freely.  The lists of the tasks handed out, recorded and passed over are
  history; no step reads them.
-/
import RootLake.Lib.Dispatch

namespace RootLake.Direct

open RootLake.Runs RootLake.Dispatch

variable {W : Type}

/-! ### The scheduler -/

structure RootDirectFileTask where
  sourceId : Nat
  path : String
  deriving DecidableEq, Repr

/-- The files of the scan and the source range of the filters. -/
structure RootDirectFileScheduler where
  files : List String
  sourceLower : Nat
  sourceUpper : Nat

/-- How a worker is through with a file. -/
inductive FileOutcome where
  | complete
  | failure (message : String)
  | unavailable
  deriving DecidableEq, Repr

/-- Where a worker is: in the loop of `Claim`, about to count a file it passes over, or about to
    append the text of a failure it has counted. -/
inductive WorkerPhase where
  | outside
  | claiming
  | passing (task : RootDirectFileTask)
  | reporting (text : String)
  deriving DecidableEq, Repr

/-- The shared counters, the workers, and the history. -/
structure SchedulerState (W : Type) where
  nextFile : Nat := 0
  completedFiles : Nat := 0
  failedFiles : Nat := 0
  unavailableFiles : Nat := 0
  skippedFiles : Nat := 0
  failures : List String := []
  phase : W → WorkerPhase := fun _ => .outside
  claimed : W → List RootDirectFileTask := fun _ => []
  refused : Bool := false
  handedOut : List (W × RootDirectFileTask) := []
  recorded : List RootDirectFileTask := []
  passedOver : List RootDirectFileTask := []

/-- The atomic steps: entering `Claim`, drawing a number, counting a file that is passed over,
    counting a file that is recorded, and appending the text of a failure. -/
inductive SchedulerAction where
  | enterClaim
  | drawFile
  | countSkipped
  | record (task : RootDirectFileTask) (outcome : FileOutcome)
  | appendFailure
  deriving DecidableEq, Repr

namespace RootDirectFileScheduler

variable (scheduler : RootDirectFileScheduler)

def inRange (task : RootDirectFileTask) : Bool :=
  !(decide (task.sourceId < scheduler.sourceLower) || decide (scheduler.sourceUpper < task.sourceId))

/-- The files with their numbers. -/
def tasks : List RootDirectFileTask :=
  scheduler.files.zipIdx.map fun file => ⟨file.2, file.1⟩

/-- The loads of `AllFilesFinished`; other workers may step in between. -/
def allFilesFinished (first second third fourth : SchedulerState W) : Bool :=
  decide (scheduler.files.length ≤ first.completedFiles + second.failedFiles +
    third.unavailableFiles + fourth.skippedFiles)

variable [DecidableEq W]

/-- A round of the loop of `Claim`. -/
def drawFile (s : SchedulerState W) (w : W) : SchedulerState W :=
  match scheduler.files[s.nextFile]? with
  | none =>
      { s with
        nextFile := s.nextFile + 1
        phase := Function.update s.phase w .outside
        refused := true }
  | some path =>
      let task : RootDirectFileTask := ⟨s.nextFile, path⟩
      if scheduler.inRange task then
        { s with
          nextFile := s.nextFile + 1
          phase := Function.update s.phase w .outside
          claimed := Function.update s.claimed w (task :: s.claimed w)
          handedOut := s.handedOut ++ [(w, task)] }
      else
        { s with
          nextFile := s.nextFile + 1
          phase := Function.update s.phase w (.passing task) }

/-- The counter of `RecordComplete`, `RecordFailure` or `RecordUnavailable`. -/
def record (s : SchedulerState W) (w : W) (task : RootDirectFileTask) (outcome : FileOutcome) :
    SchedulerState W :=
  let s :=
    { s with
      claimed := Function.update s.claimed w ((s.claimed w).erase task)
      recorded := s.recorded ++ [task] }
  match outcome with
  | .complete => { s with completedFiles := s.completedFiles + 1 }
  | .unavailable => { s with unavailableFiles := s.unavailableFiles + 1 }
  | .failure message =>
      { s with
        failedFiles := s.failedFiles + 1
        phase := Function.update s.phase w (.reporting (task.path ++ ": " ++ message)) }

/-- The step of a worker; `none` where it cannot take this step. -/
def step (s : SchedulerState W) (w : W) : SchedulerAction → Option (SchedulerState W)
  | .enterClaim =>
      match s.phase w with
      | .outside => some { s with phase := Function.update s.phase w .claiming }
      | _ => none
  | .drawFile =>
      match s.phase w with
      | .claiming => some (scheduler.drawFile s w)
      | _ => none
  | .countSkipped =>
      match s.phase w with
      | .passing task =>
          some { s with
            skippedFiles := s.skippedFiles + 1
            phase := Function.update s.phase w .claiming
            passedOver := s.passedOver ++ [task] }
      | _ => none
  | .record task outcome =>
      match s.phase w with
      | .outside => if task ∈ s.claimed w then some (record s w task outcome) else none
      | _ => none
  | .appendFailure =>
      match s.phase w with
      | .reporting text =>
          some { s with
            failures := s.failures ++ [text]
            phase := Function.update s.phase w .outside }
      | _ => none

/-- The runs of the workers of one scan. -/
def scheduling (W : Type) [DecidableEq W] (scheduler : RootDirectFileScheduler) :
    System (SchedulerState W) (W × SchedulerAction) where
  init s := s = {}
  step s action t := scheduler.step s action.1 action.2 = some t

end RootDirectFileScheduler

/-! ### The places of a file -/

/-- The file a worker is passing over. -/
def WorkerPhase.passed : WorkerPhase → List RootDirectFileTask
  | passing task => [task]
  | _ => []

theorem passed_update [DecidableEq W] (phase : W → WorkerPhase) (w : W) (new : WorkerPhase) :
    (fun v => (Function.update phase w new v).passed) =
      Function.update (fun v => (phase v).passed) w new.passed := by
  funext v
  by_cases h : v = w
  · rw [h, Function.update_self, Function.update_self]
  · rw [Function.update_of_ne h, Function.update_of_ne h]

namespace RootDirectFileScheduler

variable {scheduler : RootDirectFileScheduler}

/-- The files drawn so far that lie in the range, and those that lie outside. -/
def drawnInRange (scheduler : RootDirectFileScheduler) (s : SchedulerState W) :
    List RootDirectFileTask :=
  (scheduler.tasks.take s.nextFile).filter scheduler.inRange

def drawnOutside (scheduler : RootDirectFileScheduler) (s : SchedulerState W) :
    List RootDirectFileTask :=
  (scheduler.tasks.take s.nextFile).filter fun task => !scheduler.inRange task

/-- Where the files of the scan are, and what the counters say. -/
structure Accounted [Fintype W] (scheduler : RootDirectFileScheduler) (s : SchedulerState W) :
    Prop where
  handed : s.handedOut.map Prod.snd = scheduler.drawnInRange s
  claimed : (s.recorded : Multiset RootDirectFileTask) + ∑ w, (s.claimed w : Multiset _) =
    (scheduler.drawnInRange s : Multiset _)
  passed : (s.passedOver : Multiset RootDirectFileTask) +
      ∑ w, ((s.phase w).passed : Multiset _) = (scheduler.drawnOutside s : Multiset _)
  recordedFiles : s.completedFiles + s.failedFiles + s.unavailableFiles = s.recorded.length
  skippedFiles : s.skippedFiles = s.passedOver.length
  refused : s.refused = true → scheduler.files.length ≤ s.nextFile

theorem getElem?_tasks (index : Nat) :
    scheduler.tasks[index]? = scheduler.files[index]?.map fun path => ⟨index, path⟩ := by
  unfold tasks
  rw [List.getElem?_map, List.getElem?_zipIdx, Option.map_map]
  simp [Function.comp_def]

theorem length_tasks : scheduler.tasks.length = scheduler.files.length := by
  unfold tasks
  rw [List.length_map, List.length_zipIdx]

/-- The numbers tell the files apart. -/
theorem nodup_sourceId : (scheduler.tasks.map RootDirectFileTask.sourceId).Nodup := by
  have hids : scheduler.tasks.map RootDirectFileTask.sourceId = List.range scheduler.files.length := by
    unfold tasks
    rw [List.map_map, List.range_eq_range', ← List.zipIdx_map_snd 0 scheduler.files]
    rfl
  rw [hids]
  exact List.nodup_range

theorem init_accounted [Fintype W] : Accounted scheduler ({} : SchedulerState W) := by
  constructor <;> simp [drawnInRange, drawnOutside, WorkerPhase.passed]

section

variable [Fintype W] [DecidableEq W] {s t : SchedulerState W} {w : W}

/-- A phase in which no file is passed over may be put in place of another such. -/
theorem sum_passed_update {new : WorkerPhase} (hold : (s.phase w).passed = [])
    (hnew : new.passed = []) :
    ∑ v, ((Function.update s.phase w new v).passed : Multiset RootDirectFileTask) =
      ∑ v, ((s.phase v).passed : Multiset _) := by
  have hsum := sum_hands_update (fun v => (s.phase v).passed) w new.passed
  rw [← passed_update] at hsum
  simpa [hold, hnew] using hsum

/-- Drawing a file moves it from the pool to the worker. -/
theorem drawFile_accounted (h : Accounted scheduler s) (hphase : s.phase w = .claiming) :
    Accounted scheduler (scheduler.drawFile s w) := by
  have hnothing : (s.phase w).passed = [] := by rw [hphase]; rfl
  have hdrawn := @List.take_add_one _ scheduler.tasks s.nextFile
  rw [getElem?_tasks] at hdrawn
  unfold drawFile
  cases hfile : scheduler.files[s.nextFile]? with
  | none =>
    rw [hfile] at hdrawn
    have hlength := List.getElem?_eq_none_iff.mp hfile
    simp only [Option.map_none, Option.toList_none, List.append_nil] at hdrawn
    dsimp only
    constructor
    · simpa [drawnInRange, hdrawn] using h.handed
    · simpa [drawnInRange, hdrawn] using h.claimed
    · dsimp only
      rw [sum_passed_update hnothing rfl]
      simpa [drawnOutside, hdrawn] using h.passed
    · exact h.recordedFiles
    · exact h.skippedFiles
    · intro _
      exact Nat.le_succ_of_le hlength
  | some path =>
    rw [hfile] at hdrawn
    simp only [Option.map_some, Option.toList_some] at hdrawn
    dsimp only
    have hrefused : s.refused = true → scheduler.files.length ≤ s.nextFile + 1 :=
      fun hr => Nat.le_succ_of_le (h.refused hr)
    by_cases hin : scheduler.inRange ⟨s.nextFile, path⟩ = true
    · rw [if_pos hin]
      have hsum := sum_hands_update s.claimed w (⟨s.nextFile, path⟩ :: s.claimed w)
      rw [← Multiset.cons_coe, Multiset.add_cons, ← Multiset.cons_add] at hsum
      constructor
      · simp [drawnInRange, hdrawn, List.filter_append, hin, h.handed]
      · have hclaimed := h.claimed
        simp only [drawnInRange, hdrawn, List.filter_append, List.filter_singleton, hin,
          cond_true, ← Multiset.coe_add] at hclaimed ⊢
        rw [← hclaimed, add_right_cancel hsum, Multiset.coe_singleton, ← Multiset.singleton_add]
        abel
      · dsimp only
        rw [sum_passed_update hnothing rfl, h.passed]
        simp [drawnOutside, hdrawn, List.filter_append, hin]
      · exact h.recordedFiles
      · exact h.skippedFiles
      · exact hrefused
    · rw [if_neg hin]
      simp only [Bool.not_eq_true] at hin
      have hsum := sum_hands_update (fun v => (s.phase v).passed) w [⟨s.nextFile, path⟩]
      rw [hnothing, Multiset.coe_nil, add_zero] at hsum
      constructor
      · simpa [drawnInRange, hdrawn, List.filter_append, hin] using h.handed
      · simpa [drawnInRange, hdrawn, List.filter_append, hin] using h.claimed
      · have hpassed := h.passed
        have hupdate := passed_update s.phase w (.passing ⟨s.nextFile, path⟩)
        simp only [congrFun hupdate]
        simp only [WorkerPhase.passed, drawnOutside, hdrawn, List.filter_append,
          List.filter_singleton, hin, Bool.not_false, cond_true, ← Multiset.coe_add]
          at hpassed hsum ⊢
        rw [hsum, ← add_assoc, hpassed]
      · exact h.recordedFiles
      · exact h.skippedFiles
      · exact hrefused

/-- Recording a file moves it from the worker to the files that are done. -/
theorem record_accounted (h : Accounted scheduler s) (hphase : s.phase w = .outside)
    {task : RootDirectFileTask} (htask : task ∈ s.claimed w) (outcome : FileOutcome) :
    Accounted scheduler (record s w task outcome) := by
  have hclaimed : ((s.recorded ++ [task] : List _) : Multiset RootDirectFileTask) +
      ∑ v, (Function.update s.claimed w ((s.claimed w).erase task) v : Multiset _) =
        (scheduler.drawnInRange s : Multiset _) := by
    have hsum := sum_hands_update s.claimed w ((s.claimed w).erase task)
    have herase : (s.claimed w : Multiset RootDirectFileTask) =
        {task} + ((s.claimed w).erase task : Multiset _) :=
      Multiset.coe_eq_coe.mpr (List.perm_cons_erase htask)
    have hone : ∑ v, (Function.update s.claimed w ((s.claimed w).erase task) v : Multiset _) +
        {task} = ∑ v, (s.claimed v : Multiset _) := by
      refine add_right_cancel (b := ((s.claimed w).erase task : Multiset _)) ?_
      rw [add_assoc, ← herase]
      exact hsum
    rw [← h.claimed, ← hone, ← Multiset.coe_add, Multiset.coe_singleton]
    abel
  have hnothing : (s.phase w).passed = [] := by rw [hphase]; rfl
  have hrecorded := h.recordedFiles
  unfold record
  cases outcome with
  | complete =>
    refine ⟨h.handed, hclaimed, h.passed, ?_, h.skippedFiles, h.refused⟩
    simp only [List.length_append, List.length_singleton]
    omega
  | unavailable =>
    refine ⟨h.handed, hclaimed, h.passed, ?_, h.skippedFiles, h.refused⟩
    simp only [List.length_append, List.length_singleton]
    omega
  | failure message =>
    refine ⟨h.handed, hclaimed, ?_, ?_, h.skippedFiles, h.refused⟩
    · dsimp only
      rw [sum_passed_update hnothing rfl]
      exact h.passed
    · simp only [List.length_append, List.length_singleton]
      omega

/-- Counting a file that was passed over. -/
theorem countSkipped_accounted (h : Accounted scheduler s) {task : RootDirectFileTask}
    (hphase : s.phase w = .passing task) :
    Accounted scheduler { s with
      skippedFiles := s.skippedFiles + 1
      phase := Function.update s.phase w .claiming
      passedOver := s.passedOver ++ [task] } := by
  refine ⟨h.handed, h.claimed, ?_, h.recordedFiles, ?_, h.refused⟩
  · have hsum := sum_hands_update (fun v => (s.phase v).passed) w []
    have hpassing : (s.phase w).passed = [task] := by rw [hphase]; rfl
    have hupdate := passed_update s.phase w .claiming
    rw [hpassing, Multiset.coe_nil, add_zero, Multiset.coe_singleton] at hsum
    dsimp only
    simp only [congrFun hupdate]
    refine Eq.trans ?_ h.passed
    rw [← hsum, ← Multiset.coe_add, Multiset.coe_singleton]
    simp only [WorkerPhase.passed]
    abel
  · have hskipped := h.skippedFiles
    simp only [List.length_append, List.length_singleton]
    omega

/-- **Step lemma**: every atomic step keeps the account. -/
theorem step_accounted (h : Accounted scheduler s) {action : SchedulerAction}
    (hstep : scheduler.step s w action = some t) : Accounted scheduler t := by
  cases action with
  | enterClaim =>
    simp only [step] at hstep
    split at hstep
    next hphase =>
      cases hstep
      refine ⟨h.handed, h.claimed, ?_, h.recordedFiles, h.skippedFiles, h.refused⟩
      dsimp only
      rw [sum_passed_update (by rw [hphase]; rfl) rfl]
      exact h.passed
    next => cases hstep
  | drawFile =>
    simp only [step] at hstep
    split at hstep
    next hphase =>
      cases hstep
      exact drawFile_accounted h hphase
    next => cases hstep
  | countSkipped =>
    simp only [step] at hstep
    split at hstep
    next task hphase =>
      cases hstep
      exact countSkipped_accounted h hphase
    next => cases hstep
  | record task outcome =>
    simp only [step] at hstep
    split at hstep
    next hphase =>
      split at hstep
      next htask =>
        cases hstep
        exact record_accounted h hphase htask outcome
      next => cases hstep
    next => cases hstep
  | appendFailure =>
    simp only [step] at hstep
    split at hstep
    next text hphase =>
      cases hstep
      refine ⟨h.handed, h.claimed, ?_, h.recordedFiles, h.skippedFiles, h.refused⟩
      dsimp only
      rw [sum_passed_update (by rw [hphase]; rfl) rfl]
      exact h.passed
    next => cases hstep

/-- **Run lemma.** -/
theorem accounted_of_reachable (h : (scheduling W scheduler).Reachable s) :
    Accounted scheduler s := by
  refine System.Reachable.invariant (I := Accounted scheduler) h ?_ ?_
  · rintro _ rfl
    exact init_accounted
  · intro s action t hs hstep
    exact step_accounted hs hstep

end

/-! ### What the account says -/

/-- Every file in the range has been recorded, and every other one passed over. -/
def AllDone (scheduler : RootDirectFileScheduler) (s : SchedulerState W) : Prop :=
  ∀ task ∈ scheduler.tasks,
    if scheduler.inRange task then task ∈ s.recorded else task ∈ s.passedOver

section

variable [Fintype W] {s : SchedulerState W}

theorem filter_split (l : List RootDirectFileTask) (p : RootDirectFileTask → Bool) :
    (l.filter p : Multiset RootDirectFileTask) + (l.filter fun task => !p task : Multiset _) =
      (l : Multiset _) :=
  Multiset.coe_eq_coe.mpr (List.filter_append_perm p l)

theorem Accounted.recorded_le (h : Accounted scheduler s) :
    (s.recorded : Multiset RootDirectFileTask) ≤ (scheduler.drawnInRange s : Multiset _) := by
  rw [← h.claimed]
  exact Multiset.le_add_right _ _

theorem Accounted.passedOver_le (h : Accounted scheduler s) :
    (s.passedOver : Multiset RootDirectFileTask) ≤ (scheduler.drawnOutside s : Multiset _) := by
  rw [← h.passed]
  exact Multiset.le_add_right _ _

/-- What is done is part of the files of the scan. -/
theorem Accounted.done_le (h : Accounted scheduler s) :
    ((s.recorded ++ s.passedOver : List _) : Multiset RootDirectFileTask) ≤
      (scheduler.tasks : Multiset _) :=
  calc ((s.recorded ++ s.passedOver : List _) : Multiset RootDirectFileTask)
      = (s.recorded : Multiset _) + (s.passedOver : Multiset _) := (Multiset.coe_add _ _).symm
    _ ≤ (scheduler.drawnInRange s : Multiset _) + (scheduler.drawnOutside s : Multiset _) :=
        add_le_add h.recorded_le h.passedOver_le
    _ = ((scheduler.tasks.take s.nextFile : List _) : Multiset _) := filter_split _ _
    _ ≤ (scheduler.tasks : Multiset _) :=
        Multiset.coe_le.mpr (List.take_sublist _ _).subperm

/-- The files that are done are counted, and all are done just when their number says so. -/
theorem Accounted.allDone_iff (h : Accounted scheduler s) :
    AllDone scheduler s ↔
      scheduler.files.length ≤
        s.completedFiles + s.failedFiles + s.unavailableFiles + s.skippedFiles := by
  have hcount : s.completedFiles + s.failedFiles + s.unavailableFiles + s.skippedFiles =
      (s.recorded ++ s.passedOver).length := by
    rw [List.length_append, h.recordedFiles, h.skippedFiles]
  have hnodup : scheduler.tasks.Nodup := nodup_sourceId.of_map
  rw [hcount, ← length_tasks]
  constructor
  · intro hdone
    refine List.Subperm.length_le (hnodup.subperm ?_)
    intro task htask
    have hplace := hdone task htask
    split at hplace
    next => exact List.mem_append_left _ hplace
    next => exact List.mem_append_right _ hplace
  · intro hlength task htask
    have hperm : (s.recorded ++ s.passedOver).Perm scheduler.tasks :=
      List.Subperm.perm_of_length_le (Multiset.coe_le.mp h.done_le) hlength
    have hmem := hperm.mem_iff.mpr htask
    rcases List.mem_append.mp hmem with hmem | hmem
    · have hdrawn := Multiset.mem_of_le h.recorded_le (Multiset.mem_coe.mpr hmem)
      rw [if_pos (List.mem_filter.mp (Multiset.mem_coe.mp hdrawn)).2]
      exact hmem
    · have hdrawn := Multiset.mem_of_le h.passedOver_le (Multiset.mem_coe.mpr hmem)
      have hnot := (List.mem_filter.mp (Multiset.mem_coe.mp hdrawn)).2
      rw [if_neg (by simpa using hnot)]
      exact hmem

/-- The promise of the scheduler in a state of a run. -/
structure ExactlyOnce (scheduler : RootDirectFileScheduler) (s : SchedulerState W) : Prop where
  handedOnce : (s.handedOut.map fun handed => handed.2.sourceId).Nodup
  handedInRange : ∀ handed ∈ s.handedOut,
    handed.2 ∈ scheduler.tasks ∧ scheduler.inRange handed.2 = true
  exhausted : s.refused = true → ∀ task ∈ scheduler.tasks, scheduler.inRange task = true →
    ∃ w, (w, task) ∈ s.handedOut
  finished : scheduler.allFilesFinished s s s s = true ↔ AllDone scheduler s

theorem Accounted.exactlyOnce (h : Accounted scheduler s) : ExactlyOnce scheduler s := by
  refine ⟨?_, ?_, ?_, ?_⟩
  · have hids : s.handedOut.map (fun handed => handed.2.sourceId) =
        (scheduler.drawnInRange s).map RootDirectFileTask.sourceId := by
      rw [← h.handed, List.map_map]
      rfl
    rw [hids]
    exact nodup_sourceId.sublist
      ((List.filter_sublist.trans (List.take_sublist _ _)).map RootDirectFileTask.sourceId)
  · intro handed hmem
    have hdrawn : handed.2 ∈ scheduler.drawnInRange s := by
      rw [← h.handed]
      exact List.mem_map_of_mem hmem
    obtain ⟨htake, hin⟩ := List.mem_filter.mp hdrawn
    exact ⟨List.mem_of_mem_take htake, hin⟩
  · intro hrefused task htask hin
    have hall : scheduler.tasks.take s.nextFile = scheduler.tasks := by
      rw [List.take_eq_self_iff, length_tasks]
      exact h.refused hrefused
    have hdrawn : task ∈ scheduler.drawnInRange s := by
      unfold drawnInRange
      rw [hall]
      exact List.mem_filter.mpr ⟨htask, hin⟩
    rw [← h.handed] at hdrawn
    obtain ⟨⟨w, task'⟩, hmem, rfl⟩ := List.mem_map.mp hdrawn
    exact ⟨w, hmem⟩
  · rw [h.allDone_iff]
    exact decide_eq_true_iff

end

/-! ### Loads while other workers step -/

/-- The counters that `AllFilesFinished` loads. -/
structure CountersLe (s t : SchedulerState W) : Prop where
  completed : s.completedFiles ≤ t.completedFiles
  failed : s.failedFiles ≤ t.failedFiles
  unavailable : s.unavailableFiles ≤ t.unavailableFiles
  skipped : s.skippedFiles ≤ t.skippedFiles

theorem CountersLe.refl (s : SchedulerState W) : CountersLe s s :=
  ⟨Nat.le_refl _, Nat.le_refl _, Nat.le_refl _, Nat.le_refl _⟩

theorem CountersLe.trans {s t u : SchedulerState W} (hst : CountersLe s t) (htu : CountersLe t u) :
    CountersLe s u :=
  ⟨hst.completed.trans htu.completed, hst.failed.trans htu.failed,
    hst.unavailable.trans htu.unavailable, hst.skipped.trans htu.skipped⟩

section

variable [DecidableEq W]

/-- `t` comes after `s` in a run. -/
def Later (scheduler : RootDirectFileScheduler) : SchedulerState W → SchedulerState W → Prop :=
  Relation.ReflTransGen fun s t => ∃ w action, scheduler.step s w action = some t

variable {s t : SchedulerState W}

/-- No step takes a counter back. -/
theorem step_countersLe {w : W} {action : SchedulerAction}
    (hstep : scheduler.step s w action = some t) : CountersLe s t := by
  cases action with
  | enterClaim | countSkipped | appendFailure =>
    simp only [step] at hstep
    split at hstep
    next =>
      cases hstep
      constructor <;> dsimp only <;> omega
    next => cases hstep
  | drawFile =>
    simp only [step] at hstep
    split at hstep
    next =>
      cases hstep
      -- A draw touches none of the counters.
      unfold drawFile
      split
      next => constructor <;> exact Nat.le_refl _
      next =>
        dsimp only
        split
        next => constructor <;> exact Nat.le_refl _
        next => constructor <;> exact Nat.le_refl _
    next => cases hstep
  | record task outcome =>
    simp only [step] at hstep
    split at hstep
    next =>
      split at hstep
      next =>
        cases hstep
        unfold record
        cases outcome <;> constructor <;> dsimp only <;> omega
      next => cases hstep
    next => cases hstep

theorem countersLe_of_later (h : Later scheduler s t) : CountersLe s t := by
  induction h with
  | refl => exact CountersLe.refl s
  | tail _ hstep ih =>
    obtain ⟨w, action, hstep⟩ := hstep
    exact ih.trans (step_countersLe hstep)

theorem reachable_of_later (hs : (scheduling W scheduler).Reachable s)
    (h : Later scheduler s t) : (scheduling W scheduler).Reachable t := by
  induction h with
  | refl => exact hs
  | tail _ hstep ih =>
    obtain ⟨w, action, hstep⟩ := hstep
    exact .step ih (l := (w, action)) trivial hstep

/-- **Direct multi-file scheduling is exactly-once.**  In every state of every run, no file has
    been handed out twice, none outside the range, all in the range once `Claim` has returned
    false, and the counters say that all files are finished just when every file in the range
    has been recorded and every other one passed over.

    `AllFilesFinished` loads its counters one after another while other workers step: an
    answer true is right when the last counter is loaded, and when all was done at the first
    load the answer is true. -/
theorem file_scheduling_exactly_once [Fintype W] (scheduler : RootDirectFileScheduler)
    {first second third fourth : SchedulerState W}
    (hfirst : (scheduling W scheduler).Reachable first) (hsecond : Later scheduler first second)
    (hthird : Later scheduler second third) (hfourth : Later scheduler third fourth) :
    ExactlyOnce scheduler fourth ∧
      (scheduler.allFilesFinished first second third fourth = true → AllDone scheduler fourth) ∧
      (AllDone scheduler first → scheduler.allFilesFinished first second third fourth = true) := by
  have hreach := reachable_of_later hfirst ((hsecond.trans hthird).trans hfourth)
  have hlast := accounted_of_reachable hreach
  have h12 := countersLe_of_later hsecond
  have h23 := countersLe_of_later hthird
  have h34 := countersLe_of_later hfourth
  refine ⟨hlast.exactlyOnce, ?_, ?_⟩
  · intro hfinished
    have hsum := of_decide_eq_true hfinished
    have hcompleted := (h12.trans (h23.trans h34)).completed
    have hfailed := (h23.trans h34).failed
    have hunavailable := h34.unavailable
    exact hlast.allDone_iff.mpr (by omega)
  · intro hdone
    have hsum := (accounted_of_reachable hfirst).allDone_iff.mp hdone
    have hfailed := h12.failed
    have hunavailable := (h12.trans h23).unavailable
    have hskipped := (h12.trans (h23.trans h34)).skipped
    exact decide_eq_true (by omega)

end

/-! ### A run of two workers -/

/-- Three files, the first of which is outside the source range. -/
def threeFiles : RootDirectFileScheduler := ⟨["a.root", "b.root", "c.root"], 1, 2⟩

/-- Both workers claim; one file is completed, the other one fails. -/
def twoWorkers : List (Bool × SchedulerAction) :=
  [(true, .enterClaim), (true, .drawFile), (false, .enterClaim), (false, .drawFile),
    (true, .countSkipped), (true, .drawFile), (true, .record ⟨2, "c.root"⟩ (.failure "zombie")),
    (false, .record ⟨1, "b.root"⟩ .complete), (true, .appendFailure), (false, .enterClaim),
    (false, .drawFile)]

theorem file_scheduling_of_two_workers :
    ∃ s : SchedulerState Bool, s.refused = true ∧ s.failures = ["c.root: zombie"] ∧
      ExactlyOnce threeFiles s ∧ AllDone threeFiles s := by
  have hrun : ∃ s, runSteps (fun s (label : Bool × SchedulerAction) =>
      threeFiles.step s label.1 label.2) ({} : SchedulerState Bool) twoWorkers = some s ∧
        s.refused = true ∧ s.failures = ["c.root: zombie"] ∧
          threeFiles.allFilesFinished s s s s = true := ⟨_, rfl, rfl, rfl, rfl⟩
  obtain ⟨s, hsteps, hrefused, hfailures, hfinished⟩ := hrun
  have hreach : (scheduling Bool threeFiles).Reachable s :=
    System.reached_of_runSteps (fun _ _ _ h => ⟨trivial, h⟩) (.init rfl) hsteps
  obtain ⟨honce, hdone, -⟩ := file_scheduling_exactly_once threeFiles hreach .refl .refl .refl
  exact ⟨s, hrefused, hfailures, honce, hdone hfinished⟩

end RootDirectFileScheduler

end RootLake.Direct

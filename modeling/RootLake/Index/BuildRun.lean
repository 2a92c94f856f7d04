/-
  RootLake/Index/BuildRun.lean
  ============================
  **One run of the index build.**

  A run inspects the input files, restores the committed segments of its staging directory,
  lets its workers index the files that are not restored, and compacts the segments.  The
  workers draw the files from one counter; each has a writer that buffers the rows of its files
  and commits them as a segment.  The steps below are the points between which a process can be
  killed and at which the workers interleave.

  `okPaths` are the files whose status is `OK`.  A failing worker takes the status from all files
  it has indexed, also from those of the segments it has committed.
-/
import RootLake.Index.BuildDirectory
import RootLake.Lib.Runs

namespace RootLake.Index

/-- A thread of `BuildFiles`. -/
structure IndexWorker where
  id : Nat
  segment : Nat := 0
  writtenColumns : List String := []
  /-- The files whose rows are in the buffers of the writer. -/
  buffer : List FileCheckpoint := []
  /-- `staged_indices`. -/
  staged : List String := []
  finished : Bool := false
  deriving Inhabited

inductive BuildPhase
  | created
  | inspecting
  | restoring
  | indexing
  | compacting (table : Nat)
  | publishing
  /-- The staging directory has been renamed into `snapshots`. -/
  | renamed
  /-- `current.json` names the snapshot. -/
  | referenced
  /-- The catalog has the snapshot and the staging directory is being removed. -/
  | removing
  deriving DecidableEq, Repr

structure BuildRun where
  request : BuildRequest
  resume : Bool
  snapshotId : Nat
  /-- The staging directory, without the segments that are still to be examined. -/
  directory : BuildDirectory
  unexamined : List SegmentDirectory := []
  plans : List RootIndexFilePlan := []
  /-- The plans from the counter `next` on. -/
  undrawn : List RootIndexFilePlan := []
  okPaths : List String := []
  workerBase : Nat := 0
  workers : List IndexWorker := []
  phase : BuildPhase

inductive BuildStep
  | writeRequest
  /-- `entries` is what opening the input files gives. -/
  | inspect (entries : String → Except String UInt64)
  /-- `RestoreCheckpoints` examines one of the segments it has not seen. -/
  | examine (index : Nat) (localFiles : LocalFiles) (intact : Bool)
  | beginIndexing
  | openWriter (thread : Nat)
  /-- A worker takes the next file; without `source` the file could not be indexed. -/
  | draw (worker : Nat) (source : Option SourceFile)
  | flush (worker : Nat)
  | retire (worker : Nat) (failed : Bool)
  | validate
  | compact

namespace BuildRun

/-- What is in the staging directory. -/
def onDisk (run : BuildRun) : BuildDirectory :=
  { run.directory with segments := run.directory.segments ++ run.unexamined }

def writeRequest (run : BuildRun) : Option BuildRun :=
  if run.phase = .created then
    some { run with
      directory := { run.directory with request := some (run.request, run.snapshotId) }
      phase := .inspecting }
  else none

def inspect (run : BuildRun) (entries : String → Except String UInt64) : Option BuildRun :=
  if run.phase = .inspecting then
    match inspectFiles entries run.request.allowPartial (toString run.snapshotId)
        run.request.files with
    | .error _ => none
    | .ok plans => some { run with plans := plans, undrawn := plans, phase := .restoring }
  else none

def restoreContext (run : BuildRun) (localFiles : LocalFiles) : RestoreContext where
  datasetId := run.request.datasetId
  snapshotId := toString run.snapshotId
  plans := run.plans
  okPaths := run.okPaths
  localFiles := localFiles

/-- The body of the loop of `RestoreCheckpoints`, with `QuarantineIncompleteCheckpoint`. -/
def examine (run : BuildRun) (index : Nat) (localFiles : LocalFiles) (intact : Bool) :
    Option BuildRun :=
  if run.phase = .restoring then
    match run.unexamined[index]? with
    | none => none
    | some segment =>
        let rest := run.unexamined.eraseIdx index
        if (run.restoreContext localFiles).accepts segment intact then
          some { run with
            directory := { run.directory with segments := run.directory.segments ++ [segment] }
            unexamined := rest
            okPaths := run.okPaths ++ segment.checkpoints.map FileCheckpoint.filePath }
        else if run.directory.segments.any fun other => other.rejected &&
            other.worker == segment.worker && other.number == segment.number then
          none
        else
          let quarantined := { segment with rejected := true }
          some { run with
            directory :=
              { run.directory with segments := run.directory.segments ++ [quarantined] }
            unexamined := rest }
  else none

def beginIndexing (run : BuildRun) : Option BuildRun :=
  if run.phase = .restoring ∧ run.unexamined = [] then
    some { run with workerBase := run.directory.nextWorker, phase := .indexing }
  else none

def openWriter (run : BuildRun) (thread : Nat) : Option BuildRun :=
  let id := run.workerBase + thread
  if run.phase = .indexing ∧ ∀ worker ∈ run.workers, worker.id ≠ id then
    some { run with
      directory := { run.directory with nextWorker := max run.directory.nextWorker (id + 1) }
      workers := run.workers ++ [{ id := id }] }
  else none

/-- `Build` and `Append` for one file of a worker. -/
def fileCheckpoint (run : BuildRun) (worker : IndexWorker) (plan : RootIndexFilePlan)
    (source : SourceFile) : FileCheckpoint where
  datasetId := run.request.datasetId
  snapshotId := toString run.snapshotId
  filePath := plan.path
  eventBase := plan.eventBase.toNat
  source := source
  writtenColumns := worker.writtenColumns

def IndexWorker.append (worker : IndexWorker) (checkpoint : FileCheckpoint) : IndexWorker :=
  { worker with
    writtenColumns := checkpoint.nextWrittenColumns
    buffer := worker.buffer ++ [checkpoint]
    staged := worker.staged ++ [checkpoint.filePath] }

/-- `Append` refuses a file without rows. -/
def draw (run : BuildRun) (index : Nat) (source : Option SourceFile) : Option BuildRun :=
  match run.workers[index]?, run.undrawn with
  | some worker, plan :: rest =>
      if run.phase ≠ .indexing ∨ worker.finished then none
      else if plan.error ≠ "" ∨ plan.path ∈ run.okPaths then some { run with undrawn := rest }
      else
        match source with
        | none => some { run with undrawn := rest }
        | some source =>
            if source.paths = [] then none
            else some { run with
              undrawn := rest
              okPaths := run.okPaths ++ [plan.path]
              workers := run.workers.set index
                (IndexWorker.append worker (run.fileCheckpoint worker plan source)) }
  | _, _ => none

def IndexWorker.segmentDirectory (worker : IndexWorker) : SegmentDirectory where
  worker := worker.id
  number := worker.segment
  checkpoints := worker.buffer

def IndexWorker.flushed (worker : IndexWorker) : IndexWorker :=
  { worker with segment := worker.segment + 1, buffer := [] }

/-- `Flush`, up to its rename. -/
def flush (run : BuildRun) (index : Nat) : Option BuildRun :=
  match run.workers[index]? with
  | none => none
  | some worker =>
      if run.phase ≠ .indexing ∨ worker.finished ∨ worker.buffer = [] ∨
          (run.directory.segments.any fun other => !other.rejected &&
            other.worker == worker.id && other.number == worker.segment) then
        none
      else some { run with
        directory := { run.directory with
          segments := run.directory.segments ++ [IndexWorker.segmentDirectory worker] }
        workers := run.workers.set index (IndexWorker.flushed worker) }

/-- The end of a thread. One that fails loses its buffers and the status of its files. -/
def retire (run : BuildRun) (index : Nat) (failed : Bool) : Option BuildRun :=
  match run.workers[index]? with
  | none => none
  | some worker =>
      if run.phase ≠ .indexing ∨ worker.finished then none
      else if failed then
        some { run with
          okPaths := run.okPaths.filter fun path => !worker.staged.contains path
          workers := run.workers.set index { worker with buffer := [], finished := true } }
      else if run.undrawn = [] ∧ worker.buffer = [] then
        some { run with workers := run.workers.set index { worker with finished := true } }
      else none

/-- `ValidateBuild`, when the threads have been joined. -/
def validate (run : BuildRun) : Option BuildRun :=
  if run.phase = .indexing ∧ (∀ worker ∈ run.workers, worker.finished) ∧ run.okPaths ≠ [] ∧
      (run.request.allowPartial ∨ ∀ plan ∈ run.plans, plan.path ∈ run.okPaths) then
    some { run with phase := .compacting 0 }
  else none

/-- One turn of the loop of `CompactRootIndexParquet`. A pattern without files is an error. -/
def compact (run : BuildRun) : Option BuildRun :=
  match run.phase with
  | .compacting table =>
      if !tableExists run.directory.tables table ∧ committed run.directory.segments = [] then none
      else some { run with
        directory := { run.directory with
          tables := compactTable run.directory.tables (partTables run.directory.segments) table }
        phase := if table = 3 then .publishing else .compacting (table + 1) }
  | _ => none

def step (run : BuildRun) : BuildStep → Option BuildRun
  | .writeRequest => run.writeRequest
  | .inspect entries => run.inspect entries
  | .examine index localFiles intact => run.examine index localFiles intact
  | .beginIndexing => run.beginIndexing
  | .openWriter thread => run.openWriter thread
  | .draw worker source => run.draw worker source
  | .flush worker => run.flush worker
  | .retire worker failed => run.retire worker failed
  | .validate => run.validate
  | .compact => run.compact

/-! ### What a step does -/

/-- The steps with their guards, one case for each outcome that invariants have to tell apart. -/
inductive Stepped (run : BuildRun) : BuildStep → BuildRun → Prop
  | writeRequest :
      run.phase = .created →
      Stepped run .writeRequest { run with
        directory := { run.directory with request := some (run.request, run.snapshotId) }
        phase := .inspecting }
  | inspect {entries : String → Except String UInt64} {plans : List RootIndexFilePlan} :
      run.phase = .inspecting →
      inspectFiles entries run.request.allowPartial (toString run.snapshotId)
        run.request.files = .ok plans →
      Stepped run (.inspect entries)
        { run with plans := plans, undrawn := plans, phase := .restoring }
  | restore {index : Nat} {localFiles : LocalFiles} {intact : Bool} {segment : SegmentDirectory} :
      run.phase = .restoring → run.unexamined[index]? = some segment →
      (run.restoreContext localFiles).accepts segment intact = true →
      Stepped run (.examine index localFiles intact) { run with
        directory := { run.directory with segments := run.directory.segments ++ [segment] }
        unexamined := run.unexamined.eraseIdx index
        okPaths := run.okPaths ++ segment.checkpoints.map FileCheckpoint.filePath }
  | quarantine {index : Nat} {localFiles : LocalFiles} {intact : Bool}
      {segment : SegmentDirectory} :
      run.phase = .restoring → run.unexamined[index]? = some segment →
      (run.restoreContext localFiles).accepts segment intact = false →
      Stepped run (.examine index localFiles intact) { run with
        directory := { run.directory with
          segments := run.directory.segments ++ [{ segment with rejected := true }] }
        unexamined := run.unexamined.eraseIdx index }
  | beginIndexing :
      run.phase = .restoring → run.unexamined = [] →
      Stepped run .beginIndexing
        { run with workerBase := run.directory.nextWorker, phase := .indexing }
  | openWriter {thread nextWorker : Nat} :
      run.phase = .indexing →
      Stepped run (.openWriter thread) { run with
        directory := { run.directory with nextWorker := nextWorker }
        workers := run.workers ++ [{ id := run.workerBase + thread }] }
  | pass {index : Nat} {source : Option SourceFile} {plan : RootIndexFilePlan}
      {rest : List RootIndexFilePlan} :
      run.phase = .indexing → run.undrawn = plan :: rest →
      Stepped run (.draw index source) { run with undrawn := rest }
  | index {index : Nat} {source : SourceFile} {worker : IndexWorker} {plan : RootIndexFilePlan}
      {rest : List RootIndexFilePlan} :
      run.phase = .indexing → run.undrawn = plan :: rest → run.workers[index]? = some worker →
      worker.finished = false → plan.error = "" → plan.path ∉ run.okPaths → source.paths ≠ [] →
      Stepped run (.draw index (some source)) { run with
        undrawn := rest
        okPaths := run.okPaths ++ [plan.path]
        workers := run.workers.set index
          (IndexWorker.append worker (run.fileCheckpoint worker plan source)) }
  | flush {index : Nat} {worker : IndexWorker} :
      run.phase = .indexing → run.workers[index]? = some worker → worker.finished = false →
      Stepped run (.flush index) { run with
        directory := { run.directory with
          segments := run.directory.segments ++ [IndexWorker.segmentDirectory worker] }
        workers := run.workers.set index (IndexWorker.flushed worker) }
  | fail {index : Nat} {worker : IndexWorker} :
      run.phase = .indexing → run.workers[index]? = some worker → worker.finished = false →
      Stepped run (.retire index true) { run with
        okPaths := run.okPaths.filter fun path => !worker.staged.contains path
        workers := run.workers.set index { worker with buffer := [], finished := true } }
  | finish {index : Nat} {worker : IndexWorker} :
      run.phase = .indexing → run.workers[index]? = some worker → worker.buffer = [] →
      Stepped run (.retire index false)
        { run with workers := run.workers.set index { worker with finished := true } }
  | validate :
      run.phase = .indexing → (∀ worker ∈ run.workers, worker.finished) →
      (run.request.allowPartial ∨ ∀ plan ∈ run.plans, plan.path ∈ run.okPaths) →
      Stepped run .validate { run with phase := .compacting 0 }
  | compact {table : Nat} :
      run.phase = .compacting table →
      Stepped run .compact { run with
        directory := { run.directory with
          tables := compactTable run.directory.tables (partTables run.directory.segments) table }
        phase := if table = 3 then .publishing else .compacting (table + 1) }

theorem stepped_of_examine {run t : BuildRun} {index : Nat} {localFiles : LocalFiles}
    {intact : Bool} (h : run.examine index localFiles intact = some t) :
    Stepped run (.examine index localFiles intact) t := by
  rw [examine] at h
  split at h
  · rename_i hphase
    split at h
    · cases h
    · rename_i segment hsegment
      dsimp only at h
      split at h
      · rename_i haccepts
        cases h
        exact .restore hphase hsegment haccepts
      · rename_i haccepts
        split at h
        · cases h
        · cases h
          exact .quarantine hphase hsegment (eq_false_of_ne_true haccepts)
  · cases h

theorem stepped_of_draw {run t : BuildRun} {index : Nat} {source : Option SourceFile}
    (h : run.draw index source = some t) : Stepped run (.draw index source) t := by
  rw [draw] at h
  split at h
  · rename_i worker plan rest hworker hundrawn
    split at h
    · cases h
    · rename_i hready
      obtain ⟨hphase, hfinished⟩ := not_or.mp hready
      rw [not_ne_iff] at hphase
      rw [Bool.not_eq_true] at hfinished
      split at h
      · cases h
        exact .pass hphase hundrawn
      · rename_i hindexed
        obtain ⟨herror, hpath⟩ := not_or.mp hindexed
        cases source with
        | none =>
          cases h
          exact .pass hphase hundrawn
        | some source =>
          dsimp only at h
          split at h
          · cases h
          · rename_i hpaths
            cases h
            exact .index hphase hundrawn hworker hfinished (not_ne_iff.mp herror) hpath hpaths
  · cases h

theorem stepped_of_flush {run t : BuildRun} {index : Nat} (h : run.flush index = some t) :
    Stepped run (.flush index) t := by
  rw [flush] at h
  split at h
  · cases h
  · rename_i worker hworker
    split at h
    · cases h
    · rename_i hready
      obtain ⟨hphase, hready⟩ := not_or.mp hready
      obtain ⟨hfinished, -⟩ := not_or.mp hready
      cases h
      exact .flush (not_ne_iff.mp hphase) hworker (eq_false_of_ne_true hfinished)

theorem stepped_of_retire {run t : BuildRun} {index : Nat} {failed : Bool}
    (h : run.retire index failed = some t) : Stepped run (.retire index failed) t := by
  rw [retire] at h
  split at h
  · cases h
  · rename_i worker hworker
    split at h
    · cases h
    · rename_i hready
      obtain ⟨hphase, hfinished⟩ := not_or.mp hready
      rw [not_ne_iff] at hphase
      cases failed with
      | true =>
        cases h
        exact .fail hphase hworker (eq_false_of_ne_true hfinished)
      | false =>
        simp only [Bool.false_eq_true, if_false] at h
        split at h
        · rename_i hdone
          cases h
          exact .finish hphase hworker hdone.2
        · cases h

/-- Every step is one of the listed ones. -/
theorem stepped_of_step {run t : BuildRun} {label : BuildStep} (h : run.step label = some t) :
    Stepped run label t := by
  cases label with
  | writeRequest =>
    rw [step, writeRequest] at h
    split at h
    · rename_i hphase
      cases h
      exact .writeRequest hphase
    · cases h
  | inspect entries =>
    rw [step, inspect] at h
    split at h
    · rename_i hphase
      split at h
      · cases h
      · rename_i plans hplans
        cases h
        exact .inspect hphase hplans
    · cases h
  | examine index localFiles intact => exact stepped_of_examine h
  | beginIndexing =>
    rw [step, beginIndexing] at h
    split at h
    · rename_i hready
      cases h
      exact .beginIndexing hready.1 hready.2
    · cases h
  | openWriter thread =>
    rw [step, openWriter] at h
    dsimp only at h
    split at h
    · rename_i hready
      cases h
      exact .openWriter hready.1
    · cases h
  | draw worker source => exact stepped_of_draw h
  | flush worker => exact stepped_of_flush h
  | retire worker failed => exact stepped_of_retire h
  | validate =>
    rw [step, validate] at h
    split at h
    · rename_i hready
      cases h
      exact .validate hready.1 hready.2.1 hready.2.2.2
    · cases h
  | compact =>
    rw [step, compact] at h
    split at h
    · rename_i table hphase
      split at h
      · cases h
      · cases h
        exact .compact hphase
    · cases h

end BuildRun

end RootLake.Index

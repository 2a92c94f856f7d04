/-
  RootLake/Index/OutputDirectory.lean
  ===================================
  **All runs over one output directory.**

  The output directory holds the staging directories `.staging-<id>`, the preserved ones
  `failed/<id>-<stamp>`, the snapshots `snapshots/<id>` and `current.json`.  A run takes a lock,
  so there is at most one at a time; it may be killed between any two of its steps, and may fail
  in any of them.  Snapshot ids are the digits of increasing time stamps, all of one length, and
  are compared as numbers here.
-/
import RootLake.Index.BuildRun
import Mathlib.Data.List.Sort
import Mathlib.Data.Prod.Lex

namespace RootLake.Index

open RootLake.Runs

/-- Where a directory is below the output directory. -/
inductive Location
  | staging (id : Nat)
  | failed (id stamp : Nat)
  | snapshot (id : Nat)
  deriving DecidableEq, Repr

/-- The order of the paths: `.staging-` before `failed/` before `snapshots/`, then the name. -/
def Location.key : Location → Nat ×ₗ Nat ×ₗ Nat
  | .staging id => toLex (0, toLex (id, 0))
  | .failed id stamp => toLex (1, toLex (id, stamp))
  | .snapshot id => toLex (2, toLex (id, 0))

theorem Location.key_injective : Function.Injective Location.key := by
  intro left right h
  cases left <;> cases right <;> simp_all [Location.key]

structure OutputDirectory where
  entries : List (Location × BuildDirectory) := []
  /-- The snapshot `current.json` names. -/
  current : Option Nat := none
  /-- The last time stamp that was drawn. -/
  clock : Nat := 0
  /-- The process that holds the lock. Its staging directory is not among the entries. -/
  run : Option BuildRun := none
  /-- The snapshots `current.json` has named so far, with their tables at that time. No code
      reads this. -/
  referenced : List (Nat × CompactedTables) := []

inductive BuildAction
  | start (request : BuildRequest) (resume : Bool) (id : Nat)
  | step (label : BuildStep)
  /-- The first rename of `CommitParquetSnapshot`. -/
  | renameStaging (overwrite : Bool)
  /-- The rename of `current.json`. -/
  | writeCurrent
  /-- Some of the `parts` of a published snapshot are removed. -/
  | cleanup (keep : SegmentDirectory → Bool)
  /-- `PublishTables` or the publication to the catalog has succeeded. -/
  | publishCatalog
  /-- Some of a published staging directory is removed. -/
  | remove (keep : SegmentDirectory → Bool) (keepTable : Nat → Bool) (keepRequest : Bool)
  | finish
  /-- An exception; a staging directory is preserved with this stamp. -/
  | fail (stamp : Nat)
  | crash

/-- What is left of a directory when a removal has been cut short. -/
def BuildDirectory.remnant (directory : BuildDirectory) (keep : SegmentDirectory → Bool)
    (keepTable : Nat → Bool) (keepRequest : Bool) : BuildDirectory where
  request := if keepRequest then directory.request else none
  nextWorker := directory.nextWorker
  segments := directory.segments.filter keep
  tables :=
    { files := if keepTable 0 then directory.tables.files else none
      schemas := if keepTable 1 then directory.tables.schemas else none
      access := if keepTable 2 then directory.tables.access else none
      baskets := if keepTable 3 then directory.tables.baskets else none }
  removing := true

/-- The removal of the directory has not begun. -/
def Whole (directory : BuildDirectory) : Prop := directory.removing = false

instance (directory : BuildDirectory) : Decidable (Whole directory) :=
  inferInstanceAs (Decidable (directory.removing = false))

/-- The directory has not been renamed away. -/
def BuildPhase.ownsStaging : BuildPhase → Bool
  | .renamed | .referenced => false
  | _ => true

/-- The run is past its compaction and keeps nothing but its directory. -/
def BuildPhase.isPublished : BuildPhase → Bool
  | .renamed | .referenced | .removing => true
  | _ => false

/-- A run in a new staging directory. -/
def BuildRun.fresh (request : BuildRequest) (resume : Bool) (id : Nat) : BuildRun where
  request := request
  resume := resume
  snapshotId := id
  directory := {}
  phase := .created

/-- A run that has found a directory to resume. -/
def BuildRun.resumed (request : BuildRequest) (id : Nat) (directory : BuildDirectory) : BuildRun where
  request := request
  resume := true
  snapshotId := id
  directory :=
    { directory with segments := directory.segments.filter fun segment => segment.rejected }
  unexamined := committed directory.segments
  phase := .inspecting

namespace OutputDirectory

variable (out : OutputDirectory)

def has (location : Location) : Bool :=
  out.entries.any fun entry => entry.1 == location

def without (location : Location) : List (Location × BuildDirectory) :=
  out.entries.filter fun entry => entry.1 != location

/-! ### Resumption -/

/-- The directories `FindResumeCandidate` collects. A snapshot counts when it is newer than the
    one `current.json` names, and never when there is no `current.json`. -/
def isCandidate (entry : Location × BuildDirectory) : Bool :=
  match entry.1 with
  | .staging _ => true
  | .failed _ _ => true
  | .snapshot id => out.current.any fun published => published < id

/-- `ReadMatchingRequest`. -/
def readMatchingRequest (request : BuildRequest) (entry : Location × BuildDirectory) : Option Nat :=
  match entry.2.request with
  | none => none
  | some (found, id) => if found = request then some id else none

/-- The candidates in the order of their paths, the last one first. -/
def candidates : List (Location × BuildDirectory) :=
  (out.entries.filter out.isCandidate).insertionSort fun left right => right.1.key ≤ left.1.key

def findResumeCandidate (request : BuildRequest) : Option (Location × BuildDirectory × Nat) :=
  out.candidates.findSome? fun entry =>
    (readMatchingRequest request entry).map fun id => (entry.1, entry.2, id)

/-! ### Actions -/

/-- `Run`, up to the point where its staging directory is in place. -/
def start (request : BuildRequest) (resume : Bool) (id : Nat) : Option OutputDirectory :=
  if out.run.isSome ∨ id ≤ out.clock then none
  else
    match if resume then out.findResumeCandidate request else none with
    | some (location, directory, recovered) =>
        if location ≠ .staging recovered ∧ out.has (.staging recovered) then none
        else some { out with
          entries := out.without location
          clock := id
          run := some (BuildRun.resumed request recovered directory) }
    | none =>
        if out.has (.staging id) then none
        else some { out with clock := id, run := some (BuildRun.fresh request resume id) }

def renameStaging (run : BuildRun) (overwrite : Bool) : Option OutputDirectory :=
  let final := Location.snapshot run.snapshotId
  if run.phase ≠ .publishing ∨ !run.request.catalogMode.commitsSnapshot ∨
      (out.has final ∧ !overwrite) then none
  else some { out with
    entries := out.without final ++ [(final, run.onDisk)]
    run := some { run with phase := .renamed } }

def writeCurrent (run : BuildRun) : Option OutputDirectory :=
  if run.phase = .renamed then
    some { out with
      current := some run.snapshotId
      referenced := out.referenced ++ [(run.snapshotId, run.directory.tables)]
      run := some { run with phase := .referenced } }
  else none

def cleanup (run : BuildRun) (keep : SegmentDirectory → Bool) : Option OutputDirectory :=
  if run.phase = .referenced then
    some { out with
      entries := out.entries.map fun entry =>
        if entry.1 = .snapshot run.snapshotId then
          (entry.1, entry.2.remnant keep (fun _ => true) true)
        else entry }
  else none

def publishCatalog (run : BuildRun) : Option OutputDirectory :=
  if run.phase = .publishing ∧ !run.request.catalogMode.commitsSnapshot then
    some { out with run := some { run with phase := .removing } }
  else none

def remove (run : BuildRun) (keep : SegmentDirectory → Bool) (keepTable : Nat → Bool)
    (keepRequest : Bool) : Option OutputDirectory :=
  if run.phase = .removing then
    some { out with run := some { run with
      directory := run.onDisk.remnant keep keepTable keepRequest
      unexamined := [] } }
  else none

def finish (run : BuildRun) : Option OutputDirectory :=
  if run.phase = .referenced ∨ run.phase = .removing then some { out with run := none }
  else none

/-- The process ends; its staging directory, when it still has one, is left at `location`. -/
def abandon (run : BuildRun) (location : Location) : OutputDirectory :=
  { out with
    entries :=
      if run.phase.ownsStaging then out.entries ++ [(location, run.onDisk)] else out.entries
    run := none }

/-- `PreserveFailedStaging`. Before the request is written no handler is in place. -/
def fail (run : BuildRun) (stamp : Nat) : Option OutputDirectory :=
  if stamp ≤ out.clock then none
  else
    let location :=
      if run.phase = .created then .staging run.snapshotId else .failed run.snapshotId stamp
    some { out.abandon run location with clock := stamp }

def next : BuildAction → Option OutputDirectory
  | .start request resume id => out.start request resume id
  | .step label =>
      out.run.bind fun run => (run.step label).map fun run => { out with run := some run }
  | .renameStaging overwrite => out.run.bind fun run => out.renameStaging run overwrite
  | .writeCurrent => out.run.bind fun run => out.writeCurrent run
  | .cleanup keep => out.run.bind fun run => out.cleanup run keep
  | .publishCatalog => out.run.bind fun run => out.publishCatalog run
  | .remove keep keepTable keepRequest =>
      out.run.bind fun run => out.remove run keep keepTable keepRequest
  | .finish => out.run.bind fun run => out.finish run
  | .fail stamp => out.run.bind fun run => out.fail run stamp
  | .crash => out.run.map fun run => out.abandon run (.staging run.snapshotId)

/-- The runs over an output directory that is empty at first. -/
def builds : System OutputDirectory BuildAction where
  init out := out = {}
  step out action out' := out.next action = some out'

/-! ### What an action does -/

/-- The actions with their guards. -/
inductive Moved : BuildAction → OutputDirectory → Prop
  | resume {request : BuildRequest} {id recovered : Nat} {location : Location}
      {directory : BuildDirectory} :
      out.run = none → out.clock < id →
      out.findResumeCandidate request = some (location, directory, recovered) →
      (location = .staging recovered ∨ out.has (.staging recovered) = false) →
      Moved (.start request true id) { out with
        entries := out.without location
        clock := id
        run := some (BuildRun.resumed request recovered directory) }
  | begin {request : BuildRequest} {resume : Bool} {id : Nat} :
      out.run = none → out.clock < id → out.has (.staging id) = false →
      Moved (.start request resume id)
        { out with clock := id, run := some (BuildRun.fresh request resume id) }
  | step {run t : BuildRun} {label : BuildStep} :
      out.run = some run → BuildRun.Stepped run label t →
      Moved (.step label) { out with run := some t }
  | renameStaging {run : BuildRun} {overwrite : Bool} :
      out.run = some run → run.phase = .publishing → run.request.catalogMode.commitsSnapshot →
      (out.has (.snapshot run.snapshotId) = true → overwrite = true) →
      Moved (.renameStaging overwrite) { out with
        entries := out.without (.snapshot run.snapshotId) ++ [(.snapshot run.snapshotId, run.onDisk)]
        run := some { run with phase := .renamed } }
  | writeCurrent {run : BuildRun} :
      out.run = some run → run.phase = .renamed →
      Moved .writeCurrent { out with
        current := some run.snapshotId
        referenced := out.referenced ++ [(run.snapshotId, run.directory.tables)]
        run := some { run with phase := .referenced } }
  | cleanup {run : BuildRun} {keep : SegmentDirectory → Bool} :
      out.run = some run → run.phase = .referenced →
      Moved (.cleanup keep) { out with
        entries := out.entries.map fun entry =>
          if entry.1 = .snapshot run.snapshotId then
            (entry.1, entry.2.remnant keep (fun _ => true) true)
          else entry }
  | publishCatalog {run : BuildRun} :
      out.run = some run → run.phase = .publishing →
      Moved .publishCatalog { out with run := some { run with phase := .removing } }
  | remove {run : BuildRun} {keep : SegmentDirectory → Bool} {keepTable : Nat → Bool}
      {keepRequest : Bool} :
      out.run = some run → run.phase = .removing →
      Moved (.remove keep keepTable keepRequest) { out with run := some { run with
        directory := run.onDisk.remnant keep keepTable keepRequest
        unexamined := [] } }
  | finish {run : BuildRun} :
      out.run = some run → Moved .finish { out with run := none }
  | abandon {run : BuildRun} {action : BuildAction} {location : Location} {clock : Nat} :
      out.run = some run → (action = .crash ∨ ∃ stamp, action = .fail stamp) →
      (location = .staging run.snapshotId ∨ location = .failed run.snapshotId clock) →
      out.clock ≤ clock →
      Moved action { out.abandon run location with clock := clock }

theorem moved_of_start {out t : OutputDirectory} {request : BuildRequest} {resume : Bool} {id : Nat}
    (h : out.start request resume id = some t) : out.Moved (.start request resume id) t := by
  rw [start] at h
  split at h
  · cases h
  · rename_i hready
    obtain ⟨hrun, hid⟩ := not_or.mp hready
    rw [Bool.not_eq_true, Option.isSome_eq_false_iff, Option.isNone_iff_eq_none] at hrun
    split at h
    · rename_i location directory recovered hfound
      cases resume with
      | false => cases hfound
      | true =>
        split at h
        · cases h
        · rename_i hplace
          cases h
          refine .resume hrun (Nat.lt_of_not_le hid) hfound ?_
          rcases Decidable.not_and_iff_or_not.mp hplace with hplace | hplace
          · exact .inl (not_ne_iff.mp hplace)
          · exact .inr (eq_false_of_ne_true hplace)
    · split at h
      · cases h
      · rename_i hplace
        cases h
        exact .begin hrun (Nat.lt_of_not_le hid) (eq_false_of_ne_true hplace)

/-- Every action is one of the listed ones. -/
theorem moved_of_next {out t : OutputDirectory} {action : BuildAction}
    (h : out.next action = some t) : out.Moved action t := by
  cases action with
  | start request resume id => exact moved_of_start h
  | step label =>
    obtain ⟨run, hrun, h⟩ := Option.bind_eq_some_iff.mp h
    obtain ⟨run', hstep, rfl⟩ := Option.map_eq_some_iff.mp h
    exact .step hrun (BuildRun.stepped_of_step hstep)
  | renameStaging overwrite =>
    obtain ⟨run, hrun, h⟩ := Option.bind_eq_some_iff.mp h
    dsimp only [renameStaging] at h
    split at h
    · cases h
    · rename_i hready
      simp only [not_or, not_ne_iff, Bool.not_eq_true, Bool.not_eq_false', not_and] at hready
      cases h
      exact .renameStaging hrun hready.1 hready.2.1 fun hhas => by simpa using hready.2.2 hhas
  | writeCurrent =>
    obtain ⟨run, hrun, h⟩ := Option.bind_eq_some_iff.mp h
    rw [writeCurrent] at h
    split at h
    · rename_i hphase
      cases h
      exact .writeCurrent hrun hphase
    · cases h
  | cleanup keep =>
    obtain ⟨run, hrun, h⟩ := Option.bind_eq_some_iff.mp h
    rw [cleanup] at h
    split at h
    · rename_i hphase
      cases h
      exact .cleanup hrun hphase
    · cases h
  | publishCatalog =>
    obtain ⟨run, hrun, h⟩ := Option.bind_eq_some_iff.mp h
    rw [publishCatalog] at h
    split at h
    · rename_i hready
      cases h
      exact .publishCatalog hrun hready.1
    · cases h
  | remove keep keepTable keepRequest =>
    obtain ⟨run, hrun, h⟩ := Option.bind_eq_some_iff.mp h
    rw [remove] at h
    split at h
    · rename_i hphase
      cases h
      exact .remove hrun hphase
    · cases h
  | finish =>
    obtain ⟨run, hrun, h⟩ := Option.bind_eq_some_iff.mp h
    rw [finish] at h
    split at h
    · cases h
      exact .finish hrun
    · cases h
  | fail stamp =>
    obtain ⟨run, hrun, h⟩ := Option.bind_eq_some_iff.mp h
    rw [fail] at h
    split at h
    · cases h
    · rename_i hstamp
      cases h
      refine .abandon hrun (.inr ⟨stamp, rfl⟩) ?_ (Nat.le_of_not_le hstamp)
      split
      · exact .inl rfl
      · exact .inr rfl
  | crash =>
    obtain ⟨run, hrun, rfl⟩ := Option.map_eq_some_iff.mp h
    exact .abandon hrun (.inl rfl) (.inl rfl) (Nat.le_refl _)

/-! ### Invariants of directories and runs -/

/-- A property of directories at rest and one of runs that keep each other up: `mayResume` is
    what a run may resume, `mayStep` what it may do. -/
structure Carries (mayResume : BuildDirectory → Prop) (mayStep : BuildRun → BuildStep → Prop)
    (D : BuildDirectory → Prop) (R : BuildRun → Prop) : Prop where
  fresh : ∀ request resume id, R (BuildRun.fresh request resume id)
  resumed : ∀ request id directory, D directory → mayResume directory →
    R (BuildRun.resumed request id directory)
  step : ∀ run label t, R run → mayStep run label → BuildRun.Stepped run label t → R t
  onDisk : ∀ run, R run → D run.onDisk
  remnant : ∀ directory keep keepTable keepRequest, D directory →
    D (directory.remnant keep keepTable keepRequest)

/-- All directories have `D`, and the run has `R` as long as it works on its tables. -/
structure Everywhere (D : BuildDirectory → Prop) (R : BuildRun → Prop) : Prop where
  entries : ∀ entry ∈ out.entries, D entry.2
  run : ∀ run, out.run = some run → D run.onDisk ∧ (run.phase.isPublished = false → R run)

variable {mayResume : BuildDirectory → Prop} {mayStep : BuildRun → BuildStep → Prop}
  {D : BuildDirectory → Prop} {R : BuildRun → Prop}

theorem isPublished_of_stepped {run t : BuildRun} {label : BuildStep}
    (h : BuildRun.Stepped run label t) : run.phase.isPublished = false := by
  cases h <;> simp_all [BuildPhase.isPublished]

theorem mem_of_findResumeCandidate {out : OutputDirectory} {request : BuildRequest}
    {location : Location} {directory : BuildDirectory} {id : Nat}
    (h : out.findResumeCandidate request = some (location, directory, id)) :
    (location, directory) ∈ out.entries ∧ out.isCandidate (location, directory) = true ∧
      directory.request = some (request, id) := by
  obtain ⟨entry, hentry, hmatch⟩ := List.exists_of_findSome?_eq_some h
  obtain ⟨found, hfound, hpair⟩ := Option.map_eq_some_iff.mp hmatch
  obtain ⟨rfl, rfl, rfl⟩ := hpair
  rw [candidates, List.mem_insertionSort, List.mem_filter] at hentry
  refine ⟨hentry.1, hentry.2, ?_⟩
  rw [readMatchingRequest] at hfound
  split at hfound
  · cases hfound
  · rename_i request' id' hrequest
    split at hfound
    · rename_i heq
      cases hfound
      rw [← heq, hrequest]
    · cases hfound

/-- The step lemma of the invariants of directories and runs. -/
theorem Everywhere.moved (hcarries : Carries mayResume mayStep D R) {out t : OutputDirectory}
    {action : BuildAction} (h : out.Everywhere D R)
    (hresume : ∀ request id location directory recovered, action = .start request true id →
      out.findResumeCandidate request = some (location, directory, recovered) →
      mayResume directory)
    (hstep : ∀ run label, out.run = some run → action = .step label → mayStep run label)
    (hmoved : out.Moved action t) : t.Everywhere D R := by
  cases hmoved with
  | @resume request id recovered location directory hrun hid hfound hplace =>
    have hD : D directory := h.entries _ (mem_of_findResumeCandidate hfound).1
    have hR := hcarries.resumed request recovered directory hD (hresume _ _ _ _ _ rfl hfound)
    refine ⟨fun entry hentry => h.entries entry (List.mem_of_mem_filter hentry), ?_⟩
    rintro run ⟨⟩
    exact ⟨hcarries.onDisk _ hR, fun _ => hR⟩
  | begin hrun hid hplace =>
    have hR := hcarries.fresh
    refine ⟨h.entries, ?_⟩
    rintro run ⟨⟩
    exact ⟨hcarries.onDisk _ (hR _ _ _), fun _ => hR _ _ _⟩
  | step hrun hsteps =>
    have hR := hcarries.step _ _ _ ((h.run _ hrun).2 (isPublished_of_stepped hsteps))
      (hstep _ _ hrun rfl) hsteps
    refine ⟨h.entries, ?_⟩
    rintro run ⟨⟩
    exact ⟨hcarries.onDisk _ hR, fun _ => hR⟩
  | renameStaging hrun hphase hmode hhas =>
    have hD := (h.run _ hrun).1
    refine ⟨fun entry hentry => ?_, ?_⟩
    · rcases List.mem_append.mp hentry with hentry | hentry
      · exact h.entries entry (List.mem_of_mem_filter hentry)
      · rw [List.mem_singleton.mp hentry]
        exact hD
    · rintro run ⟨⟩
      exact ⟨hD, fun hopen => (by cases hopen)⟩
  | writeCurrent hrun hphase =>
    have hD := (h.run _ hrun).1
    refine ⟨h.entries, ?_⟩
    rintro run ⟨⟩
    exact ⟨hD, fun hopen => (by cases hopen)⟩
  | cleanup hrun hphase =>
    refine ⟨fun entry hentry => ?_, h.run⟩
    obtain ⟨source, hsource, rfl⟩ := List.mem_map.mp hentry
    split
    · dsimp only
      exact hcarries.remnant _ _ _ _ (h.entries source hsource)
    · exact h.entries source hsource
  | publishCatalog hrun hphase =>
    have hD := (h.run _ hrun).1
    refine ⟨h.entries, ?_⟩
    rintro run ⟨⟩
    exact ⟨hD, fun hopen => (by cases hopen)⟩
  | @remove run keep keepTable keepRequest hrun hphase =>
    have hD := hcarries.remnant run.onDisk keep keepTable keepRequest (h.run _ hrun).1
    refine ⟨h.entries, ?_⟩
    rintro run ⟨⟩
    refine ⟨?_, fun hopen => ?_⟩
    · rw [BuildRun.onDisk]
      dsimp only
      rw [List.append_nil]
      exact hD
    · dsimp only at hopen
      rw [hphase] at hopen
      cases hopen
  | finish hrun => exact ⟨h.entries, fun run hrun => (by cases hrun)⟩
  | abandon hrun haction hlocation hclock =>
    refine ⟨fun entry hentry => ?_, fun run hrun => (by cases hrun)⟩
    dsimp only [OutputDirectory.abandon] at hentry
    split at hentry
    · rcases List.mem_append.mp hentry with hentry | hentry
      · exact h.entries entry hentry
      · rw [List.mem_singleton.mp hentry]
        exact (h.run _ hrun).1
    · exact h.entries entry hentry

/-! ### Guarded runs -/

/-- The guard of runs that only resume what they may resume and only do what they may do. -/
def Guarded (mayResume : BuildDirectory → Prop) (mayStep : BuildRun → BuildStep → Prop)
    (out : OutputDirectory) : BuildAction → Prop
  | .start request true _ => ∀ found ∈ out.findResumeCandidate request, mayResume found.2.1
  | .step label => ∀ run ∈ out.run, mayStep run label
  | _ => True

instance [DecidablePred mayResume] [∀ run label, Decidable (mayStep run label)]
    (action : BuildAction) : Decidable (Guarded mayResume mayStep out action) := by
  unfold Guarded
  split <;> infer_instance

/-- A guard that allows less. -/
theorem Guarded.mono {mayStep' : BuildRun → BuildStep → Prop}
    (hless : ∀ run label, mayStep run label → mayStep' run label) {out : OutputDirectory}
    {action : BuildAction} (h : Guarded mayResume mayStep out action) :
    Guarded mayResume mayStep' out action := by
  cases action with
  | start request resume id =>
    cases resume with
    | true => exact h
    | false => trivial
  | step label => exact fun run hrun => hless run label (h run hrun)
  | renameStaging | writeCurrent | cleanup | publishCatalog | remove | finish | fail | crash =>
    trivial

/-- The run lemma: the invariants hold wherever guarded runs lead. -/
theorem everywhere_of_reached (hcarries : Carries mayResume mayStep D R) {out : OutputDirectory}
    (h : builds.Reached (Guarded mayResume mayStep) out) : out.Everywhere D R := by
  refine System.Reached.invariant (I := fun out => out.Everywhere D R) ?_
    (fun out action t hout hok hnext => ?_) h
  · rintro out rfl
    exact ⟨fun entry hentry => absurd hentry List.not_mem_nil, fun run hrun => (by cases hrun)⟩
  · refine hout.moved hcarries ?_ ?_ (moved_of_next hnext)
    · rintro request id location directory recovered rfl hfound
      exact hok _ hfound
    · rintro run label hrun rfl
      exact hok _ hrun

theorem reached_of_guarded {ok : OutputDirectory → BuildAction → Prop}
    [∀ out action, Decidable (ok out action)] {out : OutputDirectory} {actions : List BuildAction}
    (h : runSteps (guarded ok next) {} actions = some out) : builds.Reached ok out :=
  System.reached_of_guarded (fun _ _ _ hnext => hnext) rfl h

theorem reachable_of_run {out : OutputDirectory} {actions : List BuildAction}
    (h : runSteps next {} actions = some out) : builds.Reachable out :=
  System.reached_of_runSteps (fun _ _ _ hnext => ⟨trivial, hnext⟩) (.init rfl) h

end OutputDirectory

end RootLake.Index

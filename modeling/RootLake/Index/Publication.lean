/-
  RootLake/Index/Publication.lean
  ===============================
  **When a published index is consistent.**

  The compacted tables should hold the files whose status is `OK`, once each, and be made from
  one set of segments.  The status lives in the run, the segments and the tables on disk, and the
  three are changed by different steps: a failing worker takes back the status of files it has
  committed, and a table that exists is not written again although segments have been committed
  or quarantined since.  The invariant below is an account of every recorded file; it survives
  any crash and any resumption as long as those two things do not happen.  That the tables have
  the schema rows of these files is the invariant of `WrittenSchemas`.
-/
import RootLake.Index.WrittenSchemas
import RootLake.Index.EventKeys
import Mathlib.Data.List.Perm.Basic
import Mathlib.Tactic.IntervalCases

namespace RootLake.Index

open RootLake.Runs

/-! ### Tables of a set of segments -/

/-- Every table that exists has the rows of the committed segments. The order of the rows is left
    to the queries. -/
structure TablesFrom (tables : CompactedTables) (segments : List SegmentDirectory) : Prop where
  files : ∀ rows, tables.files = some rows → rows.Perm (partTables segments).files
  schemas : ∀ rows, tables.schemas = some rows → rows.Perm (partTables segments).schemas
  access : ∀ rows, tables.access = some rows → rows.Perm (partTables segments).access
  baskets : ∀ rows, tables.baskets = some rows → rows.Perm (partTables segments).baskets

theorem TablesFrom.perm {tables : CompactedTables} {left right : List SegmentDirectory}
    (h : TablesFrom tables left) (hperm : left.Perm right) : TablesFrom tables right where
  files rows hrows := (h.files rows hrows).trans ((committed_perm hperm).flatMap_right _)
  schemas rows hrows := (h.schemas rows hrows).trans ((committed_perm hperm).flatMap_right _).dedup
  access rows hrows := (h.access rows hrows).trans ((committed_perm hperm).flatMap_right _).dedup
  baskets rows hrows := (h.baskets rows hrows).trans ((committed_perm hperm).flatMap_right _)

theorem TablesFrom.absent {tables : CompactedTables} (h : tables.Absent)
    (segments : List SegmentDirectory) : TablesFrom tables segments := by
  rw [CompactedTables.Absent] at h
  subst h
  constructor <;> exact fun _ hrows => (by cases hrows)

/-- Compacting one more table of the same segments. -/
theorem TablesFrom.compact {tables : CompactedTables} {segments : List SegmentDirectory}
    (h : TablesFrom tables segments) (table : Nat) :
    TablesFrom (compactTable tables (partTables segments) table) segments := by
  have hor : ∀ {α : Type} {old : Option (List α)} {new rows : List α},
      (∀ rows, old = some rows → rows.Perm new) → old.or (some new) = some rows →
        rows.Perm new := by
    intro α old new rows hold hrows
    rcases Option.or_eq_some_iff.mp hrows with hrows | ⟨-, hrows⟩
    · exact hold rows hrows
    · cases hrows
      exact List.Perm.refl _
  match table with
  | 0 => exact { h with files := fun _ hrows => hor h.files hrows }
  | 1 => exact { h with schemas := fun _ hrows => hor h.schemas hrows }
  | 2 => exact { h with access := fun _ hrows => hor h.access hrows }
  | n + 3 => exact { h with baskets := fun _ hrows => hor h.baskets hrows }

/-- The tables that exist hold the rows of some files and no others: a files row for each path
    and its baskets rows, and the schema and access rows of all paths, each once. -/
structure RowsOf (tables : CompactedTables) (recorded : List FileCheckpoint) : Prop where
  files : ∀ rows, tables.files = some rows → rows.Perm
    (recorded.flatMap fun checkpoint => checkpoint.source.paths.map checkpoint.fileRow)
  schemas : ∀ rows, tables.schemas = some rows →
    rows.Perm ((indexedPaths recorded).map IndexedPathPlan.schemaRow).dedup
  access : ∀ rows, tables.access = some rows →
    rows.Perm ((indexedPaths recorded).flatMap IndexedPathPlan.accessRows).dedup
  baskets : ∀ rows, tables.baskets = some rows → rows.Perm
    (recorded.flatMap fun checkpoint => checkpoint.source.paths.flatMap fun path =>
      path.baskets.map (checkpoint.basketRow path))

/-- The claim about a run that is about to publish: all four tables are there, made from the
    committed segments of its directory; these hold the files with status `OK`, each once; and the
    tables hold the rows of these files and no others. -/
structure PublishesConsistently (run : BuildRun) : Prop where
  complete : run.directory.tables.Complete
  segments : TablesFrom run.directory.tables run.directory.segments
  once : ((committedFiles run.directory.segments).map FileCheckpoint.filePath).Nodup
  ok : ∀ path, path ∈ (committedFiles run.directory.segments).map FileCheckpoint.filePath ↔
    path ∈ run.okPaths
  rows : RowsOf run.directory.tables (committedFiles run.directory.segments)

/-- Files that bring their schema rows have the schema rows of all their paths and no others. -/
theorem SelfContained.mem_schemas {files : List FileCheckpoint} (h : SelfContained files)
    (row : RootSchemaMetadataRow) :
    row ∈ (tablesOf files).schemas ↔ row ∈ (indexedPaths files).map IndexedPathPlan.schemaRow := by
  constructor
  · intro hrow
    obtain ⟨checkpoint, hmem, hrow⟩ := List.mem_flatMap.mp hrow
    obtain ⟨path, hpath, rfl⟩ := List.mem_map.mp (metadata_schemas_subset checkpoint hrow)
    exact List.mem_map_of_mem (List.mem_flatMap.mpr ⟨checkpoint, hmem, hpath⟩)
  · intro hrow
    obtain ⟨path, hpath, rfl⟩ := List.mem_map.mp hrow
    exact (h path hpath).schema_mem

theorem SelfContained.mem_access {files : List FileCheckpoint} (h : SelfContained files)
    (row : RootAccessMetadataRow) :
    row ∈ (tablesOf files).access ↔
      row ∈ (indexedPaths files).flatMap IndexedPathPlan.accessRows := by
  constructor
  · intro hrow
    obtain ⟨checkpoint, hmem, hrow⟩ := List.mem_flatMap.mp hrow
    obtain ⟨path, hpath, hrow⟩ := List.mem_flatMap.mp (metadata_access_subset checkpoint hrow)
    exact List.mem_flatMap.mpr ⟨path, List.mem_flatMap.mpr ⟨checkpoint, hmem, hpath⟩, hrow⟩
  · intro hrow
    obtain ⟨path, hpath, hrow⟩ := List.mem_flatMap.mp hrow
    exact (h path hpath).access_mem row hrow

/-- Tables made from segments whose files bring their schema rows hold the rows of these files. -/
theorem TablesFrom.rowsOf {tables : CompactedTables} {segments : List SegmentDirectory}
    (h : TablesFrom tables segments) (hself : SelfContained (committedFiles segments)) :
    RowsOf tables (committedFiles segments) where
  files rows hrows := by
    have hperm := h.files rows hrows
    rw [partTables_files, tablesOf] at hperm
    simpa only [metadata_files] using hperm
  schemas rows hrows := by
    refine (h.schemas rows hrows).trans ?_
    refine (List.perm_ext_iff_of_nodup (List.nodup_dedup _) (List.nodup_dedup _)).mpr fun row => ?_
    refine mem_partTables_schemas.trans ?_
    rw [List.mem_dedup]
    exact hself.mem_schemas row
  access rows hrows := by
    refine (h.access rows hrows).trans ?_
    refine (List.perm_ext_iff_of_nodup (List.nodup_dedup _) (List.nodup_dedup _)).mpr fun row => ?_
    refine mem_partTables_access.trans ?_
    rw [List.mem_dedup]
    exact hself.mem_access row
  baskets rows hrows := by
    have hperm := h.baskets rows hrows
    rw [partTables_baskets, tablesOf] at hperm
    simpa only [metadata_baskets] using hperm

/-! ### Restored segments -/

/-- A receipt's file id is the one of its path. -/
theorem RestoreContext.fileId_of_acceptsReceipt {context : RestoreContext} {row : FileReceipt}
    (h : context.acceptsReceipt row = true) :
    row.fileId = fileId row.filePath (context.localFiles.size row.filePath)
      (context.localFiles.mtimeNs row.filePath) := by
  rw [acceptsReceipt] at h
  split at h
  · cases h
  · simp only [Bool.and_eq_true, beq_iff_eq] at h
    obtain ⟨⟨⟨-, hid⟩, hsize⟩, hmtime⟩ := h
    rw [hid, hsize, hmtime]

/-- A restored segment records no file twice: there are as many file ids among its rows as it has
    receipts, and a file id belongs to a path. -/
theorem RestoreContext.nodup_of_accepts {context : RestoreContext} {segment : SegmentDirectory}
    {intact : Bool} (h : context.accepts segment intact = true) :
    (segment.checkpoints.map FileCheckpoint.filePath).Nodup := by
  simp only [accepts, Bool.and_eq_true, List.all_eq_true, beq_iff_eq] at h
  obtain ⟨⟨⟨-, hreceipts⟩, hrows⟩, hcount⟩ := h
  -- every id among the rows is one of the receipts
  have hsub : (segment.tables.files.map RootFileMetadataRow.fileId).dedup ⊆
      (segment.receipt.map FileReceipt.fileId).dedup := by
    intro id hid
    rw [List.mem_dedup] at hid ⊢
    obtain ⟨row, hrow, rfl⟩ := List.mem_map.mp hid
    have haccepts := hrows row hrow
    rw [acceptsRow] at haccepts
    split at haccepts
    · cases haccepts
    · rename_i item hitem
      have hmatch := List.find?_some hitem
      rw [Bool.and_eq_true, beq_iff_eq] at hmatch
      exact List.mem_map.mpr ⟨item, List.mem_of_find?_eq_some hitem, hmatch.1⟩
  have hle : segment.receipt.length ≤ (segment.receipt.map FileReceipt.fileId).dedup.length := by
    rw [← hcount]
    exact (List.subperm_of_subset (List.nodup_dedup _) hsub).length_le
  have hids : (segment.receipt.map FileReceipt.fileId).Nodup := by
    rw [← List.dedup_eq_self]
    refine (List.dedup_sublist _).eq_of_length_le ?_
    rw [List.length_map]
    exact hle
  have hpaths : segment.receipt.map FileReceipt.fileId =
      (segment.checkpoints.map FileCheckpoint.filePath).map fun path =>
        fileId path (context.localFiles.size path) (context.localFiles.mtimeNs path) := by
    rw [List.map_map, SegmentDirectory.receipt, List.map_map]
    exact List.map_congr_left fun checkpoint hmem =>
      fileId_of_acceptsReceipt (hreceipts _ (List.mem_map_of_mem hmem))
  rw [hpaths] at hids
  exact hids.of_map

/-! ### The files of a run -/

/-- The files in the buffers of all workers. -/
def buffered (workers : List IndexWorker) : List FileCheckpoint :=
  workers.flatMap IndexWorker.buffer

/-- The files a run has in committed segments and in buffers. -/
def recorded (run : BuildRun) : List FileCheckpoint :=
  committedFiles run.directory.segments ++ buffered run.workers

theorem perm_set {α : Type} {l : List α} {i : Nat} {old : α} (new : α) (h : l[i]? = some old) :
    (old :: l.set i new).Perm (new :: l) := by
  induction l generalizing i with
  | nil => cases h
  | cons a l ih =>
    cases i with
    | zero =>
      cases h
      exact List.Perm.swap _ _ _
    | succ i =>
      rw [List.getElem?_cons_succ] at h
      exact ((List.Perm.swap a old _).trans ((ih h).cons a)).trans (List.Perm.swap new a l)

/-- Putting a worker in place of another exchanges their buffers. -/
theorem buffered_set {workers : List IndexWorker} {i : Nat} {old : IndexWorker}
    (new : IndexWorker) (h : workers[i]? = some old) :
    (old.buffer ++ buffered (workers.set i new)).Perm (new.buffer ++ buffered workers) :=
  (perm_set new h).flatMap_right IndexWorker.buffer

/-- The paths of the plans that are still to be drawn. -/
def BuildRun.undrawnPaths (run : BuildRun) : List String :=
  run.undrawn.map RootIndexFilePlan.path

/-- What a worker has to say about the files it has indexed. -/
structure WorkerAccounted (undrawnPaths : List String) (worker : IndexWorker) : Prop where
  buffer : ∀ checkpoint ∈ worker.buffer, checkpoint.filePath ∈ worker.staged
  drawn : ∀ path ∈ worker.staged, path ∉ undrawnPaths
  uncommitted : worker.segment = 0 → worker.finished = false →
    ∀ path ∈ worker.staged, path ∈ worker.buffer.map FileCheckpoint.filePath
  finished : worker.finished = true → worker.buffer = []

/-- What holds from the end of the indexing on. -/
structure Settled (run : BuildRun) : Prop where
  examined : run.unexamined = []
  flushed : buffered run.workers = []
  indexed : ∀ checkpoint ∈ committedFiles run.directory.segments,
    checkpoint.filePath ∈ run.okPaths

/-- The tables before the given one exist. -/
def CompactedBelow (tables : CompactedTables) (table : Nat) : Prop :=
  ∀ k < table, tableExists tables k = true

/-- What the phases add. -/
def PhaseAccounted (run : BuildRun) : Prop :=
  match run.phase with
  | .created | .inspecting => recorded run = [] ∧ run.workers = [] ∧ run.undrawn = run.plans
  | .restoring => run.workers = [] ∧ run.undrawn = run.plans
  | .indexing => run.unexamined = []
  | .compacting table => table ≤ 3 ∧ Settled run ∧ CompactedBelow run.directory.tables table
  | .publishing => Settled run ∧ run.directory.tables.Complete
  | _ => True

/-- The invariant of runs: an account of every file that is recorded. -/
structure Accounted (run : BuildRun) : Prop where
  whole : run.directory.removing = false
  tables : TablesFrom run.directory.tables (run.directory.segments ++ run.unexamined)
  plansOnce : (run.plans.map RootIndexFilePlan.path).Nodup
  undrawn : run.undrawn.Sublist run.plans
  once : ((recorded run).map FileCheckpoint.filePath).Nodup
  planned : ∀ checkpoint ∈ recorded run,
    checkpoint.filePath ∈ run.plans.map RootIndexFilePlan.path
  drawn : ∀ checkpoint ∈ recorded run,
    checkpoint.filePath ∈ run.okPaths ∨ checkpoint.filePath ∉ run.undrawnPaths
  ok : ∀ path ∈ run.okPaths, path ∈ (recorded run).map FileCheckpoint.filePath
  indexed : run.request.allowPartial = true → ∀ checkpoint ∈ recorded run,
    checkpoint.filePath ∈ run.okPaths
  workers : ∀ worker ∈ run.workers, WorkerAccounted run.undrawnPaths worker
  unrejected : ∀ segment ∈ run.unexamined, segment.rejected = false
  phase : PhaseAccounted run

/-- The invariant of directories. -/
def WholeTables (directory : BuildDirectory) : Prop :=
  directory.removing = true ∨ TablesFrom directory.tables directory.segments

/-- In a directory with a compacted table no segment is committed or quarantined, and in a partial
    build no worker fails that has committed a segment. -/
def KeepsAccount (run : BuildRun) : BuildStep → Prop
  | .examine index localFiles intact =>
      run.directory.tables.Absent ∨ ∀ segment ∈ run.unexamined[index]?,
        (run.restoreContext localFiles).accepts segment intact = true
  | .flush _ => run.directory.tables.Absent
  | .retire index true =>
      run.request.allowPartial = true → ∀ worker ∈ run.workers[index]?, worker.segment = 0
  | _ => True

/-! ### Steps -/

theorem inspectFiles_paths {entries : String → Except String UInt64} {allowPartial : Bool}
    {snapshotId : String} {files : List String} {plans : List RootIndexFilePlan}
    (h : inspectFiles entries allowPartial snapshotId files = .ok plans) :
    plans.map RootIndexFilePlan.path = files := by
  rw [inspectFiles] at h
  split at h
  · cases h
  · cases h
    rw [assignEventBases_map _ (fun _ _ => rfl), List.map_map]
    refine (List.map_congr_left fun file _ => ?_).trans (List.map_id files)
    rw [Function.comp_apply, inspectRootIndexFile]
    split <;> rfl

/-- Without workers the recorded files are those of the segments. -/
theorem recorded_of_no_workers {run : BuildRun} (h : run.workers = []) :
    recorded run = committedFiles run.directory.segments := by
  rw [recorded, h]
  exact List.append_nil _

theorem Accounted.inspect {run : BuildRun} {plans : List RootIndexFilePlan} (h : Accounted run)
    {entries : String → Except String UInt64} (hphase : run.phase = .inspecting)
    (hplans : inspectFiles entries run.request.allowPartial (toString run.snapshotId)
      run.request.files = .ok plans) :
    Accounted { run with plans := plans, undrawn := plans, phase := .restoring } := by
  have hearly := h.phase
  rw [PhaseAccounted, hphase] at hearly
  obtain ⟨hnone, hworkers, -⟩ := hearly
  have hno : ∀ {checkpoint}, checkpoint ∉ recorded run := by
    rw [hnone]
    exact List.not_mem_nil
  refine ⟨h.whole, h.tables, ?_, List.Sublist.refl _, h.once, fun _ hmem => absurd hmem hno,
    fun _ hmem => absurd hmem hno, h.ok, h.indexed, ?_, h.unrejected, hworkers, rfl⟩
  · dsimp only
    rw [inspectFiles_paths hplans]
    exact run.request.files_nodup
  · intro worker hworker
    rw [hworkers] at hworker
    cases hworker

theorem Accounted.restore {run : BuildRun} (h : Accounted run) {index : Nat}
    {localFiles : LocalFiles} {intact : Bool} {segment : SegmentDirectory}
    (hphase : run.phase = .restoring) (hsegment : run.unexamined[index]? = some segment)
    (haccepts : (run.restoreContext localFiles).accepts segment intact = true) :
    Accounted { run with
      directory := { run.directory with segments := run.directory.segments ++ [segment] }
      unexamined := run.unexamined.eraseIdx index
      okPaths := run.okPaths ++ segment.checkpoints.map FileCheckpoint.filePath } := by
  have hrestoring := h.phase
  rw [PhaseAccounted, hphase] at hrestoring
  obtain ⟨hworkers, hundrawn⟩ := hrestoring
  -- the files recorded so far are those restored so far
  have hrestored : ∀ checkpoint ∈ recorded run, checkpoint.filePath ∈ run.okPaths := by
    intro checkpoint hmem
    refine (h.drawn checkpoint hmem).resolve_right (not_not.mpr ?_)
    rw [BuildRun.undrawnPaths, hundrawn]
    exact h.planned checkpoint hmem
  have hnew : recorded { run with
      directory := { run.directory with segments := run.directory.segments ++ [segment] }
      unexamined := run.unexamined.eraseIdx index
      okPaths := run.okPaths ++ segment.checkpoints.map FileCheckpoint.filePath } =
      recorded run ++ segment.checkpoints := by
    rw [recorded_of_no_workers hworkers, recorded_of_no_workers (by exact hworkers),
      committedFiles_append, committedFiles_singleton,
      h.unrejected segment (List.mem_of_getElem? hsegment)]
    rfl
  refine ⟨h.whole, ?_, h.plansOnce, h.undrawn, ?_, ?_, ?_, ?_, ?_, ?_, fun other hother => ?_, ?_⟩
  · exact h.tables.perm (examined_perm hsegment)
  · rw [hnew, List.map_append, List.nodup_append]
    refine ⟨h.once, RestoreContext.nodup_of_accepts haccepts, ?_⟩
    rintro _ hleft _ hright rfl
    obtain ⟨checkpoint, hmem, hpath⟩ := List.mem_map.mp hleft
    obtain ⟨other, hother, hsame⟩ := List.mem_map.mp hright
    obtain ⟨-, -, -, -, hfresh, -, -⟩ := RestoreContext.plan_of_accepts haccepts hother
    refine hfresh ?_
    rw [hsame, ← hpath]
    exact hrestored checkpoint hmem
  · intro checkpoint hmem
    rw [hnew] at hmem
    rcases List.mem_append.mp hmem with hmem | hmem
    · exact h.planned checkpoint hmem
    · obtain ⟨plan, hplan, hpath, -, -, -, -⟩ := RestoreContext.plan_of_accepts haccepts hmem
      exact List.mem_map.mpr ⟨plan, hplan, hpath⟩
  · intro checkpoint hmem
    rw [hnew] at hmem
    rcases List.mem_append.mp hmem with hmem | hmem
    · exact .inl (List.mem_append_left _ (hrestored checkpoint hmem))
    · exact .inl (List.mem_append_right _ (List.mem_map_of_mem hmem))
  · intro path hpath
    rw [hnew, List.map_append]
    rcases List.mem_append.mp hpath with hpath | hpath
    · exact List.mem_append_left _ (h.ok path hpath)
    · exact List.mem_append_right _ hpath
  · intro _ checkpoint hmem
    rw [hnew] at hmem
    rcases List.mem_append.mp hmem with hmem | hmem
    · exact List.mem_append_left _ (hrestored checkpoint hmem)
    · exact List.mem_append_right _ (List.mem_map_of_mem hmem)
  · intro worker hworker
    dsimp only at hworker
    rw [hworkers] at hworker
    cases hworker
  · exact h.unrejected other (List.mem_of_mem_eraseIdx hother)
  · rw [PhaseAccounted]
    dsimp only
    rw [hphase]
    exact ⟨hworkers, hundrawn⟩

theorem Accounted.quarantine {run : BuildRun} (h : Accounted run) {index : Nat}
    {segment : SegmentDirectory} (hphase : run.phase = .restoring)
    (habsent : run.directory.tables.Absent) :
    Accounted { run with
      directory := { run.directory with
        segments := run.directory.segments ++ [{ segment with rejected := true }] }
      unexamined := run.unexamined.eraseIdx index } := by
  have hrestoring := h.phase
  rw [PhaseAccounted, hphase] at hrestoring
  have hnew : recorded { run with
      directory := { run.directory with
        segments := run.directory.segments ++ [{ segment with rejected := true }] }
      unexamined := run.unexamined.eraseIdx index } = recorded run := by
    simp only [recorded, committedFiles_append, committedFiles_singleton, if_true,
      List.append_nil]
  refine ⟨h.whole, TablesFrom.absent habsent _, h.plansOnce, h.undrawn, hnew ▸ h.once,
    hnew ▸ h.planned, hnew ▸ h.drawn, hnew ▸ h.ok, hnew ▸ h.indexed, h.workers,
    fun other hother => h.unrejected other (List.mem_of_mem_eraseIdx hother), ?_⟩
  rw [PhaseAccounted]
  dsimp only
  rw [hphase]
  exact hrestoring

/-- A file is taken by a worker. -/
theorem Accounted.index {run : BuildRun} (h : Accounted run) {index : Nat} {worker : IndexWorker}
    {source : SourceFile} {plan : RootIndexFilePlan} {rest : List RootIndexFilePlan}
    (hphase : run.phase = .indexing) (hundrawn : run.undrawn = plan :: rest)
    (hworker : run.workers[index]? = some worker) (hunfinished : worker.finished = false)
    (hfresh : plan.path ∉ run.okPaths) :
    Accounted { run with
      undrawn := rest
      okPaths := run.okPaths ++ [plan.path]
      workers := run.workers.set index
        (BuildRun.IndexWorker.append worker (run.fileCheckpoint worker plan source)) } := by
  have hindexing := h.phase
  rw [PhaseAccounted, hphase] at hindexing
  have hplan : plan ∈ run.undrawn := hundrawn ▸ List.mem_cons_self
  have honce : ((plan :: rest).map RootIndexFilePlan.path).Nodup :=
    hundrawn ▸ h.plansOnce.sublist (h.undrawn.map _)
  have hbehind : plan.path ∉ rest.map RootIndexFilePlan.path := (List.nodup_cons.mp honce).1
  have hless : ∀ path, path ∉ run.undrawnPaths → path ∉ rest.map RootIndexFilePlan.path := by
    intro path hpath hmem
    rw [BuildRun.undrawnPaths, hundrawn] at hpath
    exact hpath (List.mem_cons_of_mem _ hmem)
  have hnew : (recorded { run with
      undrawn := rest
      okPaths := run.okPaths ++ [plan.path]
      workers := run.workers.set index
        (BuildRun.IndexWorker.append worker (run.fileCheckpoint worker plan source)) }).Perm
      (run.fileCheckpoint worker plan source :: recorded run) := by
    have hbuffers := buffered_set
      (BuildRun.IndexWorker.append worker (run.fileCheckpoint worker plan source)) hworker
    rw [BuildRun.IndexWorker.append, List.append_assoc, List.perm_append_left_iff] at hbuffers
    exact (List.Perm.append_left _ hbuffers).trans List.perm_middle
  have hmem : ∀ checkpoint, checkpoint ∈ recorded { run with
      undrawn := rest
      okPaths := run.okPaths ++ [plan.path]
      workers := run.workers.set index
        (BuildRun.IndexWorker.append worker (run.fileCheckpoint worker plan source)) } →
      checkpoint.filePath = plan.path ∨ checkpoint ∈ recorded run := by
    intro checkpoint hmem
    rcases List.mem_cons.mp (hnew.mem_iff.mp hmem) with rfl | hmem
    · exact .inl rfl
    · exact .inr hmem
  refine ⟨h.whole, h.tables, h.plansOnce, ?_, ?_, ?_, ?_, ?_, ?_, ?_, h.unrejected, ?_⟩
  · exact (List.sublist_cons_self plan rest).trans (hundrawn ▸ h.undrawn)
  · refine ((hnew.map _).nodup_iff).mpr (List.nodup_cons.mpr ⟨fun hdup => ?_, h.once⟩)
    obtain ⟨checkpoint, hold, hpath⟩ := List.mem_map.mp hdup
    have hpath : checkpoint.filePath = plan.path := hpath
    rcases h.drawn checkpoint hold with hok | hdrawn
    · exact hfresh (hpath ▸ hok)
    · refine hdrawn ?_
      rw [hpath]
      exact List.mem_map_of_mem hplan
  · intro checkpoint hmem'
    rcases hmem checkpoint hmem' with hpath | hold
    · rw [hpath]
      exact List.mem_map_of_mem (h.undrawn.subset hplan)
    · exact h.planned checkpoint hold
  · intro checkpoint hmem'
    rcases hmem checkpoint hmem' with hpath | hold
    · rw [hpath]
      exact .inl (List.mem_append_right _ (List.mem_singleton_self _))
    · rcases h.drawn checkpoint hold with hok | hdrawn
      · exact .inl (List.mem_append_left _ hok)
      · exact .inr (hless _ hdrawn)
  · intro path hpath
    refine (hnew.map FileCheckpoint.filePath).mem_iff.mpr ?_
    rcases List.mem_append.mp hpath with hpath | hpath
    · exact List.mem_cons_of_mem _ (h.ok path hpath)
    · rw [List.mem_singleton.mp hpath]
      exact List.mem_cons_self
  · intro hpartial checkpoint hmem'
    rcases hmem checkpoint hmem' with hpath | hold
    · rw [hpath]
      exact List.mem_append_right _ (List.mem_singleton_self _)
    · exact List.mem_append_left _ (h.indexed hpartial checkpoint hold)
  · intro other hother
    rcases List.mem_or_eq_of_mem_set hother with hother | rfl
    · have hkept := h.workers other hother
      exact ⟨hkept.buffer, fun path hpath => hless path (hkept.drawn path hpath),
        hkept.uncommitted, hkept.finished⟩
    · have hkept := h.workers worker (List.mem_of_getElem? hworker)
      refine ⟨fun checkpoint hbuffer => ?_, fun path hpath => ?_, fun hnone _ path hpath => ?_,
        fun hfinished => ?_⟩
      · rcases List.mem_append.mp hbuffer with hbuffer | hbuffer
        · exact List.mem_append_left _ (hkept.buffer checkpoint hbuffer)
        · rw [List.mem_singleton.mp hbuffer]
          exact List.mem_append_right _ (List.mem_singleton_self _)
      · rcases List.mem_append.mp hpath with hpath | hpath
        · exact hless path (hkept.drawn path hpath)
        · rw [List.mem_singleton.mp hpath]
          exact hbehind
      · rw [BuildRun.IndexWorker.append, List.map_append]
        rcases List.mem_append.mp hpath with hpath | hpath
        · exact List.mem_append_left _ (hkept.uncommitted hnone hunfinished path hpath)
        · exact List.mem_append_right _ hpath
      · exact absurd (hunfinished.symm.trans hfinished) Bool.false_ne_true
  · rw [PhaseAccounted]
    dsimp only
    rw [hphase]
    exact hindexing

/-- A worker commits its buffer. -/
theorem Accounted.flush {run : BuildRun} (h : Accounted run) {index : Nat} {worker : IndexWorker}
    (hphase : run.phase = .indexing) (hworker : run.workers[index]? = some worker)
    (habsent : run.directory.tables.Absent) :
    Accounted { run with
      directory := { run.directory with
        segments := run.directory.segments ++ [BuildRun.IndexWorker.segmentDirectory worker] }
      workers := run.workers.set index (BuildRun.IndexWorker.flushed worker) } := by
  have hindexing := h.phase
  rw [PhaseAccounted, hphase] at hindexing
  have hnew : (recorded { run with
      directory := { run.directory with
        segments := run.directory.segments ++ [BuildRun.IndexWorker.segmentDirectory worker] }
      workers := run.workers.set index (BuildRun.IndexWorker.flushed worker) }).Perm
      (recorded run) := by
    have hbuffers := buffered_set (BuildRun.IndexWorker.flushed worker) hworker
    rw [recorded, committedFiles_append, committedFiles_singleton, List.append_assoc]
    exact List.Perm.append_left _ hbuffers
  refine ⟨h.whole, TablesFrom.absent habsent _, h.plansOnce, h.undrawn,
    ((hnew.map _).nodup_iff).mpr h.once, fun checkpoint hmem => h.planned _ (hnew.mem_iff.mp hmem),
    fun checkpoint hmem => h.drawn _ (hnew.mem_iff.mp hmem),
    fun path hpath => (hnew.map _).mem_iff.mpr (h.ok path hpath),
    fun hpartial checkpoint hmem => h.indexed hpartial _ (hnew.mem_iff.mp hmem),
    fun other hother => ?_, h.unrejected, ?_⟩
  · rcases List.mem_or_eq_of_mem_set hother with hother | rfl
    · exact h.workers other hother
    · have hkept := h.workers worker (List.mem_of_getElem? hworker)
      refine ⟨fun checkpoint hbuffer => absurd hbuffer List.not_mem_nil, hkept.drawn,
        fun hnone => ?_, fun _ => rfl⟩
      cases hnone
  · rw [PhaseAccounted]
    dsimp only
    rw [hphase]
    exact hindexing

/-- A worker fails: its buffer is lost and the status of its files is taken back. -/
theorem Accounted.fail {run : BuildRun} (h : Accounted run) {index : Nat} {worker : IndexWorker}
    (hphase : run.phase = .indexing) (hworker : run.workers[index]? = some worker)
    (hunfinished : worker.finished = false)
    (hcommits : run.request.allowPartial = true → worker.segment = 0) :
    Accounted { run with
      okPaths := run.okPaths.filter fun path => !worker.staged.contains path
      workers := run.workers.set index { worker with buffer := [], finished := true } } := by
  have hindexing := h.phase
  rw [PhaseAccounted, hphase] at hindexing
  have hkept := h.workers worker (List.mem_of_getElem? hworker)
  have hold : (worker.buffer ++ recorded { run with
      okPaths := run.okPaths.filter fun path => !worker.staged.contains path
      workers := run.workers.set index { worker with buffer := [], finished := true } }).Perm
      (recorded run) := by
    have hbuffers := buffered_set { worker with buffer := [], finished := true } hworker
    rw [recorded]
    dsimp only
    refine List.perm_append_comm_assoc _ _ _ |>.trans ?_
    exact List.Perm.append_left _ hbuffers
  have hmem : ∀ {checkpoint}, checkpoint ∈ recorded { run with
      okPaths := run.okPaths.filter fun path => !worker.staged.contains path
      workers := run.workers.set index { worker with buffer := [], finished := true } } →
      checkpoint ∈ recorded run :=
    fun hmem => hold.mem_iff.mp (List.mem_append_right _ hmem)
  have honce := ((hold.map FileCheckpoint.filePath).nodup_iff).mpr h.once
  rw [List.map_append, List.nodup_append] at honce
  have hok : ∀ path, path ∈ run.okPaths.filter (fun path => !worker.staged.contains path) ↔
      path ∈ run.okPaths ∧ path ∉ worker.staged := by
    simp [List.mem_filter]
  refine ⟨h.whole, h.tables, h.plansOnce, h.undrawn, honce.2.1,
    fun checkpoint hrecorded => h.planned _ (hmem hrecorded), fun checkpoint hrecorded => ?_,
    fun path hpath => ?_, fun hpartial checkpoint hrecorded => ?_, fun other hother => ?_,
    h.unrejected, ?_⟩
  · rcases h.drawn checkpoint (hmem hrecorded) with hindexed | hdrawn
    · by_cases hstaged : checkpoint.filePath ∈ worker.staged
      · exact .inr (hkept.drawn _ hstaged)
      · exact .inl ((hok _).mpr ⟨hindexed, hstaged⟩)
    · exact .inr hdrawn
  · obtain ⟨hindexed, hstaged⟩ := (hok path).mp hpath
    have hpath' := (hold.map FileCheckpoint.filePath).mem_iff.mpr (h.ok path hindexed)
    rw [List.map_append] at hpath'
    rcases List.mem_append.mp hpath' with hlost | hrecorded
    · obtain ⟨checkpoint, hbuffer, rfl⟩ := List.mem_map.mp hlost
      exact absurd (hkept.buffer checkpoint hbuffer) hstaged
    · exact hrecorded
  · refine (hok _).mpr ⟨h.indexed hpartial _ (hmem hrecorded), fun hstaged => ?_⟩
    -- the worker has committed nothing, so its files were in its buffer
    have hlost := hkept.uncommitted (hcommits hpartial) hunfinished _ hstaged
    exact honce.2.2 _ hlost _ (List.mem_map_of_mem hrecorded) rfl
  · rcases List.mem_or_eq_of_mem_set hother with hother | rfl
    · exact h.workers other hother
    · exact ⟨fun checkpoint hbuffer => absurd hbuffer List.not_mem_nil, hkept.drawn,
        fun _ hfinished => absurd hfinished.symm Bool.false_ne_true, fun _ => rfl⟩
  · rw [PhaseAccounted]
    dsimp only
    rw [hphase]
    exact hindexing

/-- A worker that has nothing left ends. -/
theorem Accounted.finish {run : BuildRun} (h : Accounted run) {index : Nat} {worker : IndexWorker}
    (hphase : run.phase = .indexing) (hworker : run.workers[index]? = some worker)
    (hbuffer : worker.buffer = []) :
    Accounted { run with workers := run.workers.set index { worker with finished := true } } := by
  have hindexing := h.phase
  rw [PhaseAccounted, hphase] at hindexing
  have hkept := h.workers worker (List.mem_of_getElem? hworker)
  have hnew : (recorded
      { run with workers := run.workers.set index { worker with finished := true } }).Perm
      (recorded run) := by
    have hbuffers := buffered_set { worker with finished := true } hworker
    dsimp only at hbuffers
    rw [List.perm_append_left_iff] at hbuffers
    exact List.Perm.append_left _ hbuffers
  refine ⟨h.whole, h.tables, h.plansOnce, h.undrawn,
    ((hnew.map _).nodup_iff).mpr h.once, fun checkpoint hmem => h.planned _ (hnew.mem_iff.mp hmem),
    fun checkpoint hmem => h.drawn _ (hnew.mem_iff.mp hmem),
    fun path hpath => (hnew.map _).mem_iff.mpr (h.ok path hpath),
    fun hpartial checkpoint hmem => h.indexed hpartial _ (hnew.mem_iff.mp hmem),
    fun other hother => ?_, h.unrejected, ?_⟩
  · rcases List.mem_or_eq_of_mem_set hother with hother | rfl
    · exact h.workers other hother
    · exact ⟨hkept.buffer, hkept.drawn, fun _ hfinished => absurd hfinished.symm Bool.false_ne_true,
        fun _ => hbuffer⟩
  · rw [PhaseAccounted]
    dsimp only
    rw [hphase]
    exact hindexing

/-- A thread opens its writer. -/
theorem Accounted.openWriter {run : BuildRun} (h : Accounted run) {id nextWorker : Nat}
    (hphase : run.phase = .indexing) :
    Accounted { run with
      directory := { run.directory with nextWorker := nextWorker }
      workers := run.workers ++ [{ id := id }] } := by
  have hindexing := h.phase
  rw [PhaseAccounted, hphase] at hindexing
  have hnew : recorded { run with
      directory := { run.directory with nextWorker := nextWorker }
      workers := run.workers ++ [{ id := id }] } = recorded run := by
    simp [recorded, buffered]
  refine ⟨h.whole, h.tables, h.plansOnce, h.undrawn, hnew ▸ h.once, hnew ▸ h.planned,
    hnew ▸ h.drawn, hnew ▸ h.ok, hnew ▸ h.indexed, fun worker hworker => ?_, h.unrejected, ?_⟩
  · rcases List.mem_append.mp hworker with hworker | hworker
    · exact h.workers worker hworker
    · rw [List.mem_singleton.mp hworker]
      refine ⟨?_, ?_, ?_, fun _ => rfl⟩
      · exact fun _ hmem => absurd hmem List.not_mem_nil
      · exact fun _ hmem => absurd hmem List.not_mem_nil
      · exact fun _ _ _ hmem => absurd hmem List.not_mem_nil
  · rw [PhaseAccounted]
    dsimp only
    rw [hphase]
    exact hindexing

/-- The build is accepted: what is committed is what has the status. -/
theorem Accounted.validate {run : BuildRun} (h : Accounted run) (hphase : run.phase = .indexing)
    (hdone : ∀ worker ∈ run.workers, worker.finished = true)
    (hok : run.request.allowPartial = true ∨ ∀ plan ∈ run.plans, plan.path ∈ run.okPaths) :
    Accounted { run with phase := .compacting 0 } := by
  have hindexing := h.phase
  rw [PhaseAccounted, hphase] at hindexing
  have hflushed : buffered run.workers = [] := by
    refine List.flatMap_eq_nil_iff.mpr fun worker hworker => ?_
    exact (h.workers worker hworker).finished (hdone worker hworker)
  refine { h with phase := ⟨Nat.zero_le _, ⟨hindexing, hflushed, fun checkpoint hmem => ?_⟩, ?_⟩ }
  · have hrecorded : checkpoint ∈ recorded run := List.mem_append_left _ hmem
    rcases hok with hpartial | hall
    · exact h.indexed hpartial checkpoint hrecorded
    · obtain ⟨plan, hplan, hpath⟩ := List.mem_map.mp (h.planned checkpoint hrecorded)
      exact hpath ▸ hall plan hplan
  · exact fun k hk => absurd hk (Nat.not_lt_zero k)

/-- A table exists when it has been compacted, and no other one is lost. -/
theorem tableExists_compactTable {tables : CompactedTables} {parts : RootFileIndexMetadata}
    {table k : Nat} (hk : k ≤ 3) (htable : table ≤ 3)
    (h : k = table ∨ tableExists tables k = true) :
    tableExists (compactTable tables parts table) k = true := by
  interval_cases table <;> interval_cases k <;> simp_all [tableExists, compactTable]

theorem CompactedBelow.compact {tables : CompactedTables} {table : Nat}
    (h : CompactedBelow tables table) (hle : table ≤ 3) (parts : RootFileIndexMetadata) :
    CompactedBelow (compactTable tables parts table) (table + 1) := by
  intro k hk
  refine tableExists_compactTable (by omega) hle ?_
  rcases Nat.lt_succ_iff_lt_or_eq.mp hk with hk | hk
  · exact .inr (h k hk)
  · exact .inl hk

theorem complete_of_below {tables : CompactedTables} (h : CompactedBelow tables 4) :
    tables.Complete :=
  ⟨h 0 (by decide), h 1 (by decide), h 2 (by decide), h 3 (by decide)⟩

/-- One more table. -/
theorem Accounted.compact {run : BuildRun} (h : Accounted run) {table : Nat}
    (hphase : run.phase = .compacting table) :
    Accounted { run with
      directory := { run.directory with
        tables := compactTable run.directory.tables (partTables run.directory.segments) table }
      phase := if table = 3 then .publishing else .compacting (table + 1) } := by
  have hcompacting := h.phase
  rw [PhaseAccounted, hphase] at hcompacting
  obtain ⟨hle, hsettled, hbelow⟩ := hcompacting
  have hbelow' := hbelow.compact hle (partTables run.directory.segments)
  refine { h with tables := ?_, phase := ?_ }
  · have htables := h.tables
    rw [hsettled.examined, List.append_nil] at htables ⊢
    exact htables.compact table
  · rw [PhaseAccounted]
    dsimp only
    by_cases hlast : table = 3
    · rw [if_pos hlast]
      subst hlast
      exact ⟨⟨hsettled.examined, hsettled.flushed, hsettled.indexed⟩, complete_of_below hbelow'⟩
    · rw [if_neg hlast]
      exact ⟨by omega, ⟨hsettled.examined, hsettled.flushed, hsettled.indexed⟩, hbelow'⟩

/-- The step lemma. -/
theorem Accounted.stepped {run t : BuildRun} {label : BuildStep} (h : Accounted run)
    (hkeeps : KeepsAccount run label) (hstep : BuildRun.Stepped run label t) : Accounted t := by
  cases hstep with
  | writeRequest hphase =>
    have hearly := h.phase
    rw [PhaseAccounted, hphase] at hearly
    exact { h with phase := hearly }
  | inspect hphase hplans => exact h.inspect hphase hplans
  | restore hphase hsegment haccepts => exact h.restore hphase hsegment haccepts
  | quarantine hphase hsegment haccepts =>
    rcases hkeeps with habsent | haccepted
    · exact h.quarantine hphase habsent
    · rw [haccepted _ hsegment] at haccepts
      cases haccepts
  | beginIndexing hphase hexamined => exact { h with phase := hexamined }
  | openWriter hphase => exact h.openWriter hphase
  | @pass index source plan rest hphase hundrawn =>
    have hindexing := h.phase
    rw [PhaseAccounted, hphase] at hindexing
    have hless : ∀ path, path ∉ run.undrawnPaths → path ∉ rest.map RootIndexFilePlan.path := by
      intro path hpath hmem
      rw [BuildRun.undrawnPaths, hundrawn] at hpath
      exact hpath (List.mem_cons_of_mem _ hmem)
    refine { h with
      undrawn := (List.sublist_cons_self plan rest).trans (hundrawn ▸ h.undrawn)
      drawn := fun checkpoint hmem => (h.drawn checkpoint hmem).imp_right (hless _)
      workers := fun worker hworker => ?_
      phase := ?_ }
    · have hkept := h.workers worker hworker
      exact { hkept with drawn := fun path hpath => hless path (hkept.drawn path hpath) }
    · rw [PhaseAccounted]
      dsimp only
      rw [hphase]
      exact hindexing
  | index hphase hundrawn hworker hunfinished herror hfresh hpaths =>
    exact h.index hphase hundrawn hworker hunfinished hfresh
  | flush hphase hworker hunfinished => exact h.flush hphase hworker hkeeps
  | fail hphase hworker hunfinished =>
    exact h.fail hphase hworker hunfinished fun hpartial => hkeeps hpartial _ hworker
  | finish hphase hworker hbuffer => exact h.finish hphase hworker hbuffer
  | validate hphase hdone hok => exact h.validate hphase hdone hok
  | compact hphase => exact h.compact hphase

theorem carries_account :
    OutputDirectory.Carries Whole KeepsAccount WholeTables Accounted where
  fresh request resume id := by
    refine ⟨rfl, TablesFrom.absent rfl _, List.nodup_nil, List.Sublist.refl _, List.nodup_nil,
      ?_, ?_, ?_, ?_, ?_, ?_, rfl, rfl, rfl⟩
    · exact fun _ hmem => absurd hmem List.not_mem_nil
    · exact fun _ hmem => absurd hmem List.not_mem_nil
    · exact fun _ hmem => absurd hmem List.not_mem_nil
    · exact fun _ _ hmem => absurd hmem List.not_mem_nil
    · exact fun _ hmem => absurd hmem List.not_mem_nil
    · exact fun _ hmem => absurd hmem List.not_mem_nil
  resumed request id directory htables hwhole := by
    have hrecorded : recorded (BuildRun.resumed request id directory) = [] := by
      rw [recorded, BuildRun.resumed, committedFiles_rejected]
      rfl
    have hno : ∀ {checkpoint}, checkpoint ∉ recorded (BuildRun.resumed request id directory) := by
      rw [hrecorded]
      exact List.not_mem_nil
    refine ⟨hwhole, ?_, List.nodup_nil, List.Sublist.refl _, ?_, fun _ hmem => absurd hmem hno,
      fun _ hmem => absurd hmem hno, ?_, fun _ _ hmem => absurd hmem hno, ?_, ?_, hrecorded, rfl, rfl⟩
    · rcases htables with hremoving | htables
      · exact absurd (hwhole.symm.trans hremoving) Bool.false_ne_true
      · exact htables.perm (List.filter_append_perm _ _).symm
    · rw [hrecorded]
      exact List.nodup_nil
    · exact fun _ hmem => absurd hmem List.not_mem_nil
    · exact fun _ hmem => absurd hmem List.not_mem_nil
    · intro segment hmem
      simpa using (List.mem_filter.mp hmem).2
  step run label t h hkeeps hstep := h.stepped hkeeps hstep
  onDisk run h := .inr h.tables
  remnant directory keep keepTable keepRequest h := .inl rfl

/-- The conditions on the status of the files and on their schema rows. -/
def KeepsTables (run : BuildRun) (label : BuildStep) : Prop :=
  KeepsAccount run label ∧ KeepsSchemas run label

/-- **Published tables are consistent.**  In runs that meet the conditions, of whatever outcome, a
    run that is about to publish has four tables made from the committed segments, and these hold
    the rows of the files with status `OK`, each file once, and no others. -/
theorem published_tables_consistent {out : OutputDirectory} {run : BuildRun}
    (h : OutputDirectory.builds.Reached (OutputDirectory.Guarded Whole KeepsTables) out)
    (hrun : out.run = some run) (hphase : run.phase = .publishing) :
    PublishesConsistently run := by
  have hopen : run.phase.isPublished = false := by
    rw [hphase]
    rfl
  have haccounts : OutputDirectory.builds.Reached (OutputDirectory.Guarded Whole KeepsAccount) out :=
    h.mono fun _ _ => OutputDirectory.Guarded.mono fun _ _ hkeeps => hkeeps.1
  have hschemas : OutputDirectory.builds.Reached (OutputDirectory.Guarded Whole KeepsSchemas) out :=
    h.mono fun _ _ => OutputDirectory.Guarded.mono fun _ _ hkeeps => hkeeps.2
  have haccounted :=
    ((OutputDirectory.everywhere_of_reached carries_account haccounts).run run hrun).2 hopen
  have hwritten :=
    ((OutputDirectory.everywhere_of_reached carries_schemas hschemas).run run hrun).2 hopen
  have hpublishing := haccounted.phase
  rw [PhaseAccounted, hphase] at hpublishing
  obtain ⟨hsettled, hcomplete⟩ := hpublishing
  have hrecorded : recorded run = committedFiles run.directory.segments := by
    rw [recorded, hsettled.flushed, List.append_nil]
  have htables := haccounted.tables
  have honce := haccounted.once
  have hok := haccounted.ok
  rw [hsettled.examined, List.append_nil] at htables
  rw [hrecorded] at honce hok
  have hself := (hwritten.restored (by rw [hphase]; rfl)).2
  refine ⟨hcomplete, htables, honce, fun path => ⟨fun hmem => ?_, hok path⟩, htables.rowsOf hself⟩
  obtain ⟨checkpoint, hcheckpoint, rfl⟩ := List.mem_map.mp hmem
  exact hsettled.indexed checkpoint hcheckpoint

instance (run : BuildRun) : (label : BuildStep) → Decidable (KeepsAccount run label)
  | .examine index localFiles intact => inferInstanceAs (Decidable
      (run.directory.tables.Absent ∨ ∀ segment ∈ run.unexamined[index]?,
        (run.restoreContext localFiles).accepts segment intact = true))
  | .flush _ => inferInstanceAs (Decidable run.directory.tables.Absent)
  | .retire index true => inferInstanceAs (Decidable
      (run.request.allowPartial = true → ∀ worker ∈ run.workers[index]?, worker.segment = 0))
  | .retire _ false => inferInstanceAs (Decidable True)
  | .writeRequest | .inspect _ | .beginIndexing | .openWriter _ | .draw .. | .validate |
      .compact => inferInstanceAs (Decidable True)

instance (run : BuildRun) (label : BuildStep) : Decidable (KeepsTables run label) :=
  inferInstanceAs (Decidable (KeepsAccount run label ∧ KeepsSchemas run label))

/-! ### A partial build -/

def twoFilesPartial : BuildRequest :=
  { twoFiles with allowPartial := true }

/-- Two workers take one file each; the first one commits its file and then fails. -/
def failAfterCommit : List BuildAction :=
  [.start twoFilesPartial false 1, .step .writeRequest, .step (.inspect fun _ => .ok 2),
    .step .beginIndexing, .step (.openWriter 0), .step (.openWriter 1),
    .step (.draw 0 (some (memberX 2))), .step (.draw 1 (some (memberX 2))), .step (.flush 0),
    .step (.flush 1), .step (.retire 0 true), .step (.retire 1 false), .step .validate,
    .step .compact, .step .compact, .step .compact, .step .compact]

/-- The tables have the file of the failed worker too, whose status is `ERROR`. -/
theorem failed_worker_is_published :
    ¬ ∀ out run, OutputDirectory.builds.Reachable out → out.run = some run →
      run.phase = .publishing → PublishesConsistently run := by
  intro hall
  have hrun : ∃ out run rows, runSteps OutputDirectory.next {} failAfterCommit = some out ∧
      out.run = some run ∧ run.phase = .publishing ∧ run.okPaths = ["b.root"] ∧
      run.directory.tables.files = some rows ∧
      rows.map RootFileMetadataRow.rootUri = ["a.root", "b.root"] :=
    ⟨_, _, _, rfl, rfl, rfl, rfl, rfl, by decide +kernel⟩
  obtain ⟨out, run, rows, hrun, hsome, hphase, hok, hfiles, huris⟩ := hrun
  have hconsistent := hall out run (OutputDirectory.reachable_of_run hrun) hsome hphase
  have hmem : "a.root" ∈ rows.map RootFileMetadataRow.rootUri := by
    rw [huris]
    exact List.mem_cons_self
  obtain ⟨row, hrow, huri⟩ := List.mem_map.mp hmem
  obtain ⟨checkpoint, hcheckpoint, hrow⟩ := List.mem_flatMap.mp
    ((hconsistent.rows.files rows hfiles).mem_iff.mp hrow)
  obtain ⟨path, -, rfl⟩ := List.mem_map.mp hrow
  have hindexed' := (hconsistent.ok "a.root").mp (List.mem_map.mpr ⟨checkpoint, hcheckpoint, huri⟩)
  rw [hok] at hindexed'
  exact absurd hindexed' (by decide)

/-- A worker commits its two files apart and the run is killed. When the next one comes `a.root` has
    changed and cannot be indexed again: its segment is put aside and the other one restored. -/
def loseFirstSegment : List BuildAction :=
  let localFiles : LocalFiles := ⟨fun _ => 100, fun path => if path = "a.root" then 8 else 7⟩
  [.start twoFilesPartial false 1, .step .writeRequest, .step (.inspect fun _ => .ok 2),
    .step .beginIndexing, .step (.openWriter 0), .step (.draw 0 (some (memberX 2))),
    .step (.flush 0), .step (.draw 0 (some (memberX 2))), .step (.flush 0), .crash,
    .start twoFilesPartial true 2, .step (.inspect fun _ => .ok 2),
    .step (.examine 0 localFiles true), .step (.examine 0 localFiles true), .step .beginIndexing,
    .step (.openWriter 0), .step (.draw 0 none), .step (.draw 0 none), .step (.retire 0 false),
    .step .validate, .step .compact, .step .compact, .step .compact, .step .compact]

/-- The published tables have the file `b.root` and no schema of it. -/
example : (runSteps OutputDirectory.next {} loseFirstSegment).bind (fun out =>
    out.run.map fun run => (run.okPaths, run.phase, run.directory.tables.schemas)) =
    some (["b.root"], .publishing, some []) := by decide +kernel

/-- A run is killed after its files are committed; the next one restores them and publishes. -/
def resumeAfterCrash : List BuildAction :=
  [.start twoFilesPartial false 1, .step .writeRequest, .step (.inspect fun _ => .ok 2),
    .step .beginIndexing, .step (.openWriter 0), .step (.draw 0 (some (memberX 2))),
    .step (.flush 0), .crash, .start twoFilesPartial true 2, .step (.inspect fun _ => .ok 2),
    .step (.examine 0 ⟨fun _ => 100, fun _ => 7⟩ true), .step .beginIndexing,
    .step (.openWriter 0), .step (.draw 0 none), .step (.draw 0 (some (memberX 2))),
    .step (.flush 0), .step (.retire 0 false), .step .validate,
    .step .compact, .step .compact, .step .compact, .step .compact]

theorem published_tables_consistent_resumed :
    ∃ out run, runSteps OutputDirectory.next {} resumeAfterCrash = some out ∧
      out.run = some run ∧ run.okPaths = ["a.root", "b.root"] ∧ PublishesConsistently run := by
  have hrun : (runSteps (guarded (OutputDirectory.Guarded Whole KeepsTables)
      OutputDirectory.next) {} resumeAfterCrash).bind (fun out =>
        out.run.map fun run => (run.okPaths, run.phase)) =
      some (["a.root", "b.root"], .publishing) := by decide +kernel
  obtain ⟨out, hguarded, hrun⟩ := Option.bind_eq_some_iff.mp hrun
  obtain ⟨run, hsome, hresult⟩ := Option.map_eq_some_iff.mp hrun
  obtain ⟨hok, hphase⟩ := Prod.mk.inj hresult
  exact ⟨out, run, runSteps_of_guarded hguarded, hsome, hok, published_tables_consistent
    (OutputDirectory.reached_of_guarded hguarded) hsome hphase⟩

end RootLake.Index

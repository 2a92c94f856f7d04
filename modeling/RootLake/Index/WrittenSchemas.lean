/-
  RootLake/Index/WrittenSchemas.lean
  ==================================
  **The schema rows of the committed segments.**

  A worker writes the schema and access rows of a column once, with the first file it indexes.
  The segments it commits later count on the one that has them, and so does every run that
  restores them.  What is committed keeps the schema rows of all its files as long as no segment
  is taken out from under another and one column id belongs to one schema.
-/
import RootLake.Index.OutputDirectory

namespace RootLake.Index

/-! ### Files that bring their schema rows -/

instance (tables : RootFileIndexMetadata) (column : String) (path : IndexedPathPlan) :
    Decidable (SchemaWritten tables column path) :=
  decidable_of_iff (path.columnId = column ∧ path.schemaRow ∈ tables.schemas ∧
      ∀ row ∈ path.accessRows, row ∈ tables.access)
    ⟨fun ⟨hcolumn, hschema, haccess⟩ => ⟨hcolumn, hschema, haccess⟩,
      fun h => ⟨h.column_eq, h.schema_mem, h.access_mem⟩⟩

/-- The logical paths of some files. -/
def indexedPaths (files : List FileCheckpoint) : List IndexedPathPlan :=
  files.flatMap fun checkpoint => checkpoint.source.paths

/-- The rows of some files have the schema and access rows of all their paths. -/
def SelfContained (files : List FileCheckpoint) : Prop :=
  ∀ path ∈ indexedPaths files, SchemaWritten (tablesOf files) path.columnId path

/-- A column id has one schema row and one list of access rows. -/
def OneSchema (paths : List IndexedPathPlan) : Prop :=
  ∀ path ∈ paths, ∀ other ∈ paths, path.columnId = other.columnId →
    path.schemaRow = other.schemaRow ∧ path.accessRows = other.accessRows

instance (files : List FileCheckpoint) : Decidable (SelfContained files) :=
  inferInstanceAs (Decidable (∀ path ∈ indexedPaths files,
    SchemaWritten (tablesOf files) path.columnId path))

instance (paths : List IndexedPathPlan) : Decidable (OneSchema paths) :=
  inferInstanceAs (Decidable (∀ path ∈ paths, ∀ other ∈ paths, path.columnId = other.columnId →
    path.schemaRow = other.schemaRow ∧ path.accessRows = other.accessRows))

theorem SchemaWritten.of_subset {left right : List FileCheckpoint} {column : String}
    {path : IndexedPathPlan} (h : SchemaWritten (tablesOf left) column path)
    (hsub : left ⊆ right) : SchemaWritten (tablesOf right) column path where
  column_eq := h.column_eq
  schema_mem := by
    obtain ⟨checkpoint, hmem, hrow⟩ := List.mem_flatMap.mp h.schema_mem
    exact List.mem_flatMap.mpr ⟨checkpoint, hsub hmem, hrow⟩
  access_mem row hrow := by
    obtain ⟨checkpoint, hmem, hrow⟩ := List.mem_flatMap.mp (h.access_mem row hrow)
    exact List.mem_flatMap.mpr ⟨checkpoint, hsub hmem, hrow⟩

/-- The rows of a path are those of another one with its column id. -/
theorem SchemaWritten.of_oneSchema {tables : RootFileIndexMetadata} {paths : List IndexedPathPlan}
    {path known : IndexedPathPlan} (hone : OneSchema paths) (hpath : path ∈ paths)
    (hknown : known ∈ paths) (h : SchemaWritten tables path.columnId known) :
    SchemaWritten tables path.columnId path := by
  obtain ⟨hschema, haccess⟩ := hone path hpath known hknown h.column_eq.symm
  refine ⟨rfl, ?_, ?_⟩
  · rw [hschema]
    exact h.schema_mem
  · rw [haccess]
    exact h.access_mem

theorem SelfContained.nil : SelfContained [] :=
  fun _ hmem => absurd hmem List.not_mem_nil

/-- Files put together from two lists that bring their schema rows bring them too. -/
theorem SelfContained.union {left right files : List FileCheckpoint} (hleft : SelfContained left)
    (hright : SelfContained right) (hsub : left ⊆ files) (hsub' : right ⊆ files)
    (hfrom : ∀ checkpoint ∈ files, checkpoint ∈ left ∨ checkpoint ∈ right) :
    SelfContained files := by
  intro path hpath
  obtain ⟨checkpoint, hmem, hpath⟩ := List.mem_flatMap.mp hpath
  rcases hfrom checkpoint hmem with hmem | hmem
  · exact (hleft path (List.mem_flatMap.mpr ⟨checkpoint, hmem, hpath⟩)).of_subset hsub
  · exact (hright path (List.mem_flatMap.mpr ⟨checkpoint, hmem, hpath⟩)).of_subset hsub'

theorem SelfContained.perm {left right : List FileCheckpoint} (h : SelfContained left)
    (hperm : left.Perm right) : SelfContained right :=
  h.union h hperm.subset hperm.subset fun _ hmem => .inl (hperm.mem_iff.mpr hmem)

/-! ### Workers -/

/-- A worker may leave out the columns it has written: the schema rows of its files are in the
    committed segments or in its buffers. -/
structure KnowsSchemas (files : List FileCheckpoint) (worker : IndexWorker) : Prop where
  contained : SelfContained (files ++ worker.buffer)
  columns : ∀ column ∈ worker.writtenColumns, ∃ path ∈ indexedPaths (files ++ worker.buffer),
    path.columnId = column

theorem indexedPaths_append (left right : List FileCheckpoint) :
    indexedPaths (left ++ right) = indexedPaths left ++ indexedPaths right :=
  List.flatMap_append

/-- More is committed. -/
theorem KnowsSchemas.more {files new : List FileCheckpoint} {worker : IndexWorker}
    (h : KnowsSchemas files worker) (hnew : SelfContained (files ++ new)) :
    KnowsSchemas (files ++ new) worker where
  contained := by
    refine hnew.union h.contained (List.subset_append_left _ _) ?_ fun checkpoint hmem => ?_
    · exact List.append_subset.mpr ⟨List.subset_append_of_subset_left _
        (List.subset_append_left _ _), List.subset_append_right _ _⟩
    · exact (List.mem_append.mp hmem).imp_right (List.mem_append_right _)
  columns column hcolumn := by
    obtain ⟨path, hpath, hid⟩ := h.columns column hcolumn
    refine ⟨path, ?_, hid⟩
    rw [indexedPaths_append] at hpath
    rw [indexedPaths_append, indexedPaths_append]
    exact (List.mem_append.mp hpath).elim
      (fun hpath => List.mem_append_left _ (List.mem_append_left _ hpath))
      (fun hpath => List.mem_append_right _ hpath)

/-- A worker indexes one more file: what it leaves out it has written for a path with the same
    column id. -/
theorem KnowsSchemas.append {files : List FileCheckpoint} {worker : IndexWorker}
    {checkpoint : FileCheckpoint} (h : KnowsSchemas files worker)
    (hwritten : checkpoint.writtenColumns = worker.writtenColumns)
    (hone : OneSchema (indexedPaths (files ++ worker.buffer) ++ checkpoint.source.paths)) :
    KnowsSchemas files (BuildRun.IndexWorker.append worker checkpoint) := by
  have hlast : checkpoint ∈ files ++ (worker.buffer ++ [checkpoint]) :=
    List.mem_append_right _ (List.mem_append_right _ (List.mem_singleton_self _))
  have hearlier : files ++ worker.buffer ⊆ files ++ (worker.buffer ++ [checkpoint]) := by
    rw [← List.append_assoc]
    exact List.subset_append_left _ _
  have hpaths : indexedPaths (files ++ (worker.buffer ++ [checkpoint])) =
      indexedPaths (files ++ worker.buffer) ++ checkpoint.source.paths := by
    rw [← List.append_assoc, indexedPaths_append]
    simp [indexedPaths]
  refine ⟨fun path hpath => ?_, fun column hcolumn => ?_⟩
  · rw [BuildRun.IndexWorker.append, hpaths] at hpath
    rcases List.mem_append.mp hpath with hold | hnew
    · exact (h.contained path hold).of_subset hearlier
    · have hcounted : path.columnId ∈ checkpoint.nextWrittenColumns :=
        (mem_nextWrittenColumns checkpoint path.columnId).mpr (.inr ⟨path, hnew, rfl⟩)
      rcases schemaWritten_of_mem checkpoint hcounted with hwrote | ⟨known, hknown, hrows⟩
      · -- the column was written with an earlier file
        rw [hwritten] at hwrote
        obtain ⟨known, hknown, hid⟩ := h.columns _ hwrote
        have hrows := hid ▸ (h.contained known hknown).of_subset hearlier
        exact hrows.of_oneSchema hone hpath (List.mem_append_left _ hknown)
      · -- the column is written with this one
        have hrows : SchemaWritten (tablesOf (files ++ (worker.buffer ++ [checkpoint])))
            path.columnId known :=
          ⟨hrows.column_eq, List.mem_flatMap.mpr ⟨checkpoint, hlast, hrows.schema_mem⟩,
            fun row hrow => List.mem_flatMap.mpr ⟨checkpoint, hlast, hrows.access_mem row hrow⟩⟩
        exact hrows.of_oneSchema hone hpath (List.mem_append_right _ hknown)
  · rw [BuildRun.IndexWorker.append, hpaths]
    rcases (mem_nextWrittenColumns checkpoint column).mp hcolumn with hold | ⟨path, hpath, hid⟩
    · rw [hwritten] at hold
      obtain ⟨path, hpath, hid⟩ := h.columns column hold
      exact ⟨path, List.mem_append_left _ hpath, hid⟩
    · exact ⟨path, List.mem_append_right _ hpath, hid⟩

/-! ### Runs -/

/-- A segment has been put aside. -/
def Quarantined (segments : List SegmentDirectory) : Prop :=
  ∃ segment ∈ segments, segment.rejected = true

instance (segments : List SegmentDirectory) : Decidable (Quarantined segments) :=
  inferInstanceAs (Decidable (∃ segment ∈ segments, segment.rejected = true))

/-- The segments have been examined. -/
def BuildPhase.isRestored : BuildPhase → Bool
  | .created | .inspecting | .restoring => false
  | _ => true

/-- The segments bring their schema rows, unless one has been put aside. -/
def SchemasOnDisk (directory : BuildDirectory) : Prop :=
  directory.removing = true ∨ Quarantined directory.segments ∨
    SelfContained (committedFiles directory.segments)

/-- The invariant of runs. -/
structure SchemasKept (run : BuildRun) : Prop where
  kept : Quarantined run.onDisk.segments ∨ SelfContained (committedFiles run.onDisk.segments)
  idle : run.phase.isRestored = false → run.workers = []
  restored : run.phase.isRestored = true →
    run.unexamined = [] ∧ SelfContained (committedFiles run.directory.segments)
  workers : ∀ worker ∈ run.workers, worker.finished = false →
    KnowsSchemas (committedFiles run.directory.segments) worker

/-- When segments have been put aside, those that are restored bring the schema rows of all their
    files; and a worker indexes no path whose column id stands for other schema rows. -/
def KeepsSchemas (run : BuildRun) : BuildStep → Prop
  | .beginIndexing => Quarantined run.directory.segments →
      SelfContained (committedFiles run.directory.segments)
  | .draw index (some source) => ∀ worker ∈ run.workers[index]?, OneSchema
      (indexedPaths (committedFiles run.directory.segments ++ worker.buffer) ++ source.paths)
  | _ => True

instance (run : BuildRun) : (label : BuildStep) → Decidable (KeepsSchemas run label)
  | .beginIndexing => inferInstanceAs (Decidable (Quarantined run.directory.segments →
      SelfContained (committedFiles run.directory.segments)))
  | .draw index (some source) => inferInstanceAs (Decidable (∀ worker ∈ run.workers[index]?,
      OneSchema (indexedPaths (committedFiles run.directory.segments ++ worker.buffer) ++
        source.paths)))
  | .draw _ none => inferInstanceAs (Decidable True)
  | .writeRequest | .inspect _ | .examine .. | .openWriter _ | .flush _ | .retire .. |
      .validate | .compact => inferInstanceAs (Decidable True)

/-- What is examined stays in the directory. -/
theorem examined_perm {run : BuildRun} {index : Nat} {segment : SegmentDirectory}
    (h : run.unexamined[index]? = some segment) :
    (run.directory.segments ++ run.unexamined).Perm
      (run.directory.segments ++ [segment] ++ run.unexamined.eraseIdx index) := by
  obtain ⟨hindex, rfl⟩ := List.getElem?_eq_some_iff.mp h
  rw [List.append_assoc, List.singleton_append]
  exact List.Perm.append_left _ (List.getElem_cons_eraseIdx_perm hindex).symm

theorem Quarantined.perm {left right : List SegmentDirectory} (h : Quarantined left)
    (hperm : left.Perm right) : Quarantined right := by
  obtain ⟨segment, hmem, hrejected⟩ := h
  exact ⟨segment, hperm.mem_iff.mp hmem, hrejected⟩

/-- A step of the workers that commits nothing. -/
theorem SchemasKept.of_workers {run : BuildRun} (h : SchemasKept run) {workers : List IndexWorker}
    (hphase : run.phase = .indexing)
    (hworkers : ∀ worker ∈ workers, worker.finished = false → worker ∈ run.workers ∨
      KnowsSchemas (committedFiles run.directory.segments) worker)
    {undrawn : List RootIndexFilePlan} {okPaths : List String} {nextWorker : Nat} :
    SchemasKept { run with
      directory := { run.directory with nextWorker := nextWorker }
      undrawn := undrawn
      okPaths := okPaths
      workers := workers } where
  kept := h.kept
  idle hidle := by
    dsimp only at hidle
    rw [hphase] at hidle
    cases hidle
  restored := h.restored
  workers worker hworker hunfinished :=
    (hworkers worker hworker hunfinished).elim (fun hold => h.workers worker hold hunfinished) id

/-- A worker commits its buffer, with the schema rows it has in it. -/
theorem SchemasKept.flush {run : BuildRun} (h : SchemasKept run) {index : Nat}
    {worker : IndexWorker} (hphase : run.phase = .indexing)
    (hworker : run.workers[index]? = some worker) (hunfinished : worker.finished = false) :
    SchemasKept { run with
      directory := { run.directory with
        segments := run.directory.segments ++ [BuildRun.IndexWorker.segmentDirectory worker] }
      workers := run.workers.set index (BuildRun.IndexWorker.flushed worker) } := by
  have hknows := h.workers worker (List.mem_of_getElem? hworker) hunfinished
  obtain ⟨hexamined, -⟩ := h.restored (by rw [hphase]; rfl)
  have hfiles : committedFiles
      (run.directory.segments ++ [BuildRun.IndexWorker.segmentDirectory worker]) =
      committedFiles run.directory.segments ++ worker.buffer := by
    rw [committedFiles_append, committedFiles_singleton]
    rfl
  refine ⟨.inr ?_, fun hidle => ?_, fun _ => ⟨hexamined, ?_⟩, fun other hother hopen => ?_⟩
  · rw [BuildRun.onDisk]
    dsimp only
    rw [hexamined, List.append_nil, hfiles]
    exact hknows.contained
  · dsimp only at hidle
    rw [hphase] at hidle
    cases hidle
  · exact hfiles ▸ hknows.contained
  · dsimp only
    rw [hfiles]
    rcases List.mem_or_eq_of_mem_set hother with hother | rfl
    · exact (h.workers other hother hopen).more hknows.contained
    · refine ⟨?_, fun column hcolumn => ?_⟩
      · rw [BuildRun.IndexWorker.flushed, List.append_nil]
        exact hknows.contained
      · rw [BuildRun.IndexWorker.flushed, List.append_nil]
        exact hknows.columns column hcolumn

/-- The step lemma. -/
theorem SchemasKept.stepped {run t : BuildRun} {label : BuildStep} (h : SchemasKept run)
    (hkeeps : KeepsSchemas run label) (hstep : BuildRun.Stepped run label t) : SchemasKept t := by
  cases hstep with
  | writeRequest hphase =>
    have hidle := h.idle (by rw [hphase]; rfl)
    exact { h with idle := fun _ => hidle, restored := fun hrestored => (by cases hrestored) }
  | inspect hphase =>
    have hidle := h.idle (by rw [hphase]; rfl)
    exact { h with idle := fun _ => hidle, restored := fun hrestored => (by cases hrestored) }
  | restore hphase hsegment =>
    have hidle := h.idle (by rw [hphase]; rfl)
    refine ⟨?_, fun _ => hidle, fun hrestored => ?_, fun worker hworker => ?_⟩
    · have hperm := examined_perm hsegment
      exact h.kept.imp (fun hput => hput.perm hperm) fun hself =>
        hself.perm (committedFiles_perm hperm)
    · dsimp only at hrestored
      rw [hphase] at hrestored
      cases hrestored
    · dsimp only at hworker
      rw [hidle] at hworker
      cases hworker
  | @quarantine _ _ _ segment hphase hsegment =>
    have hidle := h.idle (by rw [hphase]; rfl)
    refine ⟨.inl ⟨{ segment with rejected := true }, ?_, rfl⟩, fun _ => hidle,
      fun hrestored => ?_, fun worker hworker => ?_⟩
    · exact List.mem_append_left _ (List.mem_append_right _ (List.mem_singleton_self _))
    · dsimp only at hrestored
      rw [hphase] at hrestored
      cases hrestored
    · dsimp only at hworker
      rw [hidle] at hworker
      cases hworker
  | beginIndexing hphase hexamined =>
    have hidle := h.idle (by rw [hphase]; rfl)
    have hkept := h.kept
    rw [BuildRun.onDisk] at hkept
    dsimp only at hkept
    rw [hexamined, List.append_nil] at hkept
    refine ⟨h.kept, fun hlate => (by cases hlate), fun _ => ⟨hexamined, hkept.elim hkeeps id⟩, ?_⟩
    intro worker hworker
    dsimp only at hworker
    rw [hidle] at hworker
    cases hworker
  | openWriter hphase =>
    refine h.of_workers hphase fun worker hworker _ => ?_
    rcases List.mem_append.mp hworker with hworker | hworker
    · exact .inl hworker
    · rw [List.mem_singleton.mp hworker]
      refine .inr ⟨?_, fun _ hcolumn => absurd hcolumn List.not_mem_nil⟩
      rw [List.append_nil]
      exact (h.restored (by rw [hphase]; rfl)).2
  | pass hphase => exact h.of_workers hphase fun worker hworker _ => .inl hworker
  | index hphase hundrawn hworker hunfinished =>
    refine h.of_workers hphase fun other hother hopen => ?_
    rcases List.mem_or_eq_of_mem_set hother with hother | rfl
    · exact .inl hother
    · exact .inr ((h.workers _ (List.mem_of_getElem? hworker) hunfinished).append rfl
        (hkeeps _ hworker))
  | flush hphase hworker hunfinished => exact h.flush hphase hworker hunfinished
  | fail hphase hworker =>
    refine h.of_workers hphase fun other hother hopen => ?_
    rcases List.mem_or_eq_of_mem_set hother with hother | rfl
    · exact .inl hother
    · cases hopen
  | finish hphase hworker =>
    refine h.of_workers hphase fun other hother hopen => ?_
    rcases List.mem_or_eq_of_mem_set hother with hother | rfl
    · exact .inl hother
    · cases hopen
  | validate hphase =>
    exact { h with
      idle := fun hlate => (by cases hlate)
      restored := fun _ => h.restored (by rw [hphase]; rfl) }
  | @compact table hphase =>
    refine { h with
      idle := fun hlate => ?_
      restored := fun _ => h.restored (by rw [hphase]; rfl) }
    dsimp only at hlate
    split at hlate <;> cases hlate

theorem carries_schemas :
    OutputDirectory.Carries Whole KeepsSchemas SchemasOnDisk SchemasKept where
  fresh request resume id :=
    ⟨.inr SelfContained.nil, fun _ => rfl, fun hrestored => (by cases hrestored),
      fun _ hworker => absurd hworker List.not_mem_nil⟩
  resumed request id directory hdisk hwhole := by
    have hperm : directory.segments.Perm (BuildRun.resumed request id directory).onDisk.segments :=
      (List.filter_append_perm _ _).symm
    refine ⟨?_, fun _ => rfl, fun hrestored => (by cases hrestored),
      fun _ hworker => absurd hworker List.not_mem_nil⟩
    rcases hdisk with hremoving | hput | hself
    · exact absurd (hwhole.symm.trans hremoving) Bool.false_ne_true
    · exact .inl (hput.perm hperm)
    · exact .inr (hself.perm (committedFiles_perm hperm))
  step run label t h hkeeps hstep := h.stepped hkeeps hstep
  onDisk run h := .inr h.kept
  remnant directory keep keepTable keepRequest h := .inl rfl

end RootLake.Index

/-
  RootLake/Index/SchemaClosure.lean
  =================================
  **Every compacted row has its schema.**

  The reader looks for the schema row of a files or baskets row by its column and takes the
  levels of the path from the access plan it names.  The four tables are compacted one after the
  other and none is written again: they are closed when the files and baskets tables have no row
  that the committed segments have lost since, when the schemas and access tables have all rows
  that the segments have gained, and when the segments bring their schema rows.
-/
import RootLake.Index.Publication

namespace RootLake.Index

open RootLake.Runs

/-! ### Rows and their schemas -/

/-- There is a schema row for a path, and the access plan it names has every level. -/
def HasSchema (tables : CompactedTables) (path : IndexedPathPlan) : Prop :=
  ∃ schemas access, tables.schemas = some schemas ∧ tables.access = some access ∧
    ∃ schema ∈ schemas, schema.columnId = path.columnId ∧ schema.schemaId = path.schemaId ∧
      ∀ level ∈ path.levels.zipIdx,
        IndexedPathPlan.accessRow schema.accessPlanId level.1 level.2 ∈ access

/-- The indexed paths that a files row is of. -/
def fileRowPaths (recorded : List FileCheckpoint) (row : RootFileMetadataRow) :
    List IndexedPathPlan :=
  recorded.flatMap fun checkpoint =>
    checkpoint.source.paths.filter fun path => checkpoint.fileRow path = row

/-- The indexed paths that a baskets row is of. -/
def basketRowPaths (recorded : List FileCheckpoint) (row : RootBasketMetadataRow) :
    List IndexedPathPlan :=
  recorded.flatMap fun checkpoint => checkpoint.source.paths.filter fun path =>
    path.baskets.any fun basket => checkpoint.basketRow path basket = row

/-- A row is of a path, and its path has a schema. -/
def RowClosed (tables : CompactedTables) (paths : List IndexedPathPlan) : Prop :=
  paths ≠ [] ∧ ∀ path ∈ paths, HasSchema tables path

/-- The claim about the tables of a run: all four are there, and every files and baskets row has
    its schema. -/
structure SchemaClosed (tables : CompactedTables) (recorded : List FileCheckpoint) : Prop where
  complete : tables.Complete
  files : ∀ rows, tables.files = some rows → ∀ row ∈ rows,
    RowClosed tables (fileRowPaths recorded row)
  baskets : ∀ rows, tables.baskets = some rows → ∀ row ∈ rows,
    RowClosed tables (basketRowPaths recorded row)

/-! ### Tables and segments -/

/-- The tables have no row of a file that is not committed, and all schema rows of those that
    are. -/
structure TablesWithin (tables : CompactedTables) (recorded : List FileCheckpoint) : Prop where
  files : ∀ rows, tables.files = some rows → rows ⊆ (tablesOf recorded).files
  schemas : ∀ rows, tables.schemas = some rows → (tablesOf recorded).schemas ⊆ rows
  access : ∀ rows, tables.access = some rows → (tablesOf recorded).access ⊆ rows
  baskets : ∀ rows, tables.baskets = some rows → rows ⊆ (tablesOf recorded).baskets

theorem flatMap_subset {α β : Type} {left right : List α} (rows : α → List β)
    (h : left ⊆ right) : left.flatMap rows ⊆ right.flatMap rows := by
  intro row hrow
  obtain ⟨a, hmem, hrow⟩ := List.mem_flatMap.mp hrow
  exact List.mem_flatMap.mpr ⟨a, h hmem, hrow⟩

section

variable {tables : CompactedTables} {left right : List FileCheckpoint}

theorem TablesWithin.perm (h : TablesWithin tables left) (hperm : left.Perm right) :
    TablesWithin tables right where
  files rows hrows := List.Subset.trans (h.files rows hrows) (flatMap_subset _ hperm.subset)
  schemas rows hrows := List.Subset.trans (flatMap_subset _ hperm.symm.subset) (h.schemas rows hrows)
  access rows hrows := List.Subset.trans (flatMap_subset _ hperm.symm.subset) (h.access rows hrows)
  baskets rows hrows := List.Subset.trans (h.baskets rows hrows) (flatMap_subset _ hperm.subset)

/-- More is committed while there are no schemas and no access table. -/
theorem TablesWithin.more (h : TablesWithin tables left) (hsub : left ⊆ right)
    (hschemas : tables.schemas = none) (haccess : tables.access = none) :
    TablesWithin tables right where
  files rows hrows := List.Subset.trans (h.files rows hrows) (flatMap_subset _ hsub)
  schemas rows hrows := absurd (hschemas.symm.trans hrows) (Option.some_ne_none rows).symm
  access rows hrows := absurd (haccess.symm.trans hrows) (Option.some_ne_none rows).symm
  baskets rows hrows := List.Subset.trans (h.baskets rows hrows) (flatMap_subset _ hsub)

/-- Something is put aside while there are no files and no baskets table. -/
theorem TablesWithin.fewer (h : TablesWithin tables left) (hsub : right ⊆ left)
    (hfiles : tables.files = none) (hbaskets : tables.baskets = none) :
    TablesWithin tables right where
  files rows hrows := absurd (hfiles.symm.trans hrows) (Option.some_ne_none rows).symm
  schemas rows hrows := List.Subset.trans (flatMap_subset _ hsub) (h.schemas rows hrows)
  access rows hrows := List.Subset.trans (flatMap_subset _ hsub) (h.access rows hrows)
  baskets rows hrows := absurd (hbaskets.symm.trans hrows) (Option.some_ne_none rows).symm

/-- One more table of the committed segments. -/
theorem TablesWithin.compact {segments : List SegmentDirectory}
    (h : TablesWithin tables (committedFiles segments)) (table : Nat) :
    TablesWithin (compactTable tables (partTables segments) table) (committedFiles segments) := by
  match table with
  | 0 =>
    refine { h with files := fun rows hrows => ?_ }
    rcases Option.or_eq_some_iff.mp hrows with hrows | ⟨-, hrows⟩
    · exact h.files rows hrows
    · cases hrows
      rw [partTables_files]
      exact List.Subset.refl _
  | 1 =>
    refine { h with schemas := fun rows hrows => ?_ }
    rcases Option.or_eq_some_iff.mp hrows with hrows | ⟨-, hrows⟩
    · exact h.schemas rows hrows
    · cases hrows
      exact fun row hrow => mem_partTables_schemas.mpr hrow
  | 2 =>
    refine { h with access := fun rows hrows => ?_ }
    rcases Option.or_eq_some_iff.mp hrows with hrows | ⟨-, hrows⟩
    · exact h.access rows hrows
    · cases hrows
      exact fun row hrow => mem_partTables_access.mpr hrow
  | n + 3 =>
    refine { h with baskets := fun rows hrows => ?_ }
    rcases Option.or_eq_some_iff.mp hrows with hrows | ⟨-, hrows⟩
    · exact h.baskets rows hrows
    · cases hrows
      rw [partTables_baskets]
      exact List.Subset.refl _

/-- Tables within files that bring their schema rows are closed. -/
theorem TablesWithin.closed (h : TablesWithin tables left) (hcomplete : tables.Complete)
    (hself : SelfContained left) : SchemaClosed tables left := by
  obtain ⟨schemas, hschemas⟩ := Option.isSome_iff_exists.mp hcomplete.schemas
  obtain ⟨access, haccess⟩ := Option.isSome_iff_exists.mp hcomplete.access
  have hpaths : ∀ path ∈ indexedPaths left, HasSchema tables path := by
    intro path hpath
    have hrows := hself path hpath
    refine ⟨schemas, access, hschemas, haccess, path.schemaRow,
      h.schemas schemas hschemas hrows.schema_mem, rfl, rfl, fun level hlevel => ?_⟩
    exact h.access access haccess (hrows.access_mem _ (List.mem_map_of_mem hlevel))
  refine ⟨hcomplete, fun rows hrows row hrow => ?_, fun rows hrows row hrow => ?_⟩
  · obtain ⟨checkpoint, hmem, hrow⟩ := List.mem_flatMap.mp (h.files rows hrows hrow)
    rw [metadata_files] at hrow
    obtain ⟨path, hpath, hrow⟩ := List.mem_map.mp hrow
    have hof : path ∈ fileRowPaths left row :=
      List.mem_flatMap.mpr ⟨checkpoint, hmem, List.mem_filter.mpr ⟨hpath, decide_eq_true hrow⟩⟩
    refine ⟨List.ne_nil_of_mem hof, fun path hpath => ?_⟩
    obtain ⟨checkpoint, hmem, hpath⟩ := List.mem_flatMap.mp hpath
    exact hpaths path (List.mem_flatMap.mpr ⟨checkpoint, hmem, List.mem_of_mem_filter hpath⟩)
  · obtain ⟨checkpoint, hmem, hrow⟩ := List.mem_flatMap.mp (h.baskets rows hrows hrow)
    rw [metadata_baskets] at hrow
    obtain ⟨path, hpath, hrow⟩ := List.mem_flatMap.mp hrow
    obtain ⟨basket, hbasket, hrow⟩ := List.mem_map.mp hrow
    have hof : path ∈ basketRowPaths left row :=
      List.mem_flatMap.mpr ⟨checkpoint, hmem, List.mem_filter.mpr
        ⟨hpath, List.any_eq_true.mpr ⟨basket, hbasket, decide_eq_true hrow⟩⟩⟩
    refine ⟨List.ne_nil_of_mem hof, fun path hpath => ?_⟩
    obtain ⟨checkpoint, hmem, hpath⟩ := List.mem_flatMap.mp hpath
    exact hpaths path (List.mem_flatMap.mpr ⟨checkpoint, hmem, List.mem_of_mem_filter hpath⟩)

end
/-! ### Runs -/

/-- What the phases add. -/
def PhaseWithin (run : BuildRun) : Prop :=
  match run.phase with
  | .indexing => run.unexamined = []
  | .compacting table =>
      run.unexamined = [] ∧ table ≤ 3 ∧ CompactedBelow run.directory.tables table
  | .publishing => run.unexamined = [] ∧ run.directory.tables.Complete
  | _ => True

/-- The invariant of runs. -/
structure RowsKept (run : BuildRun) : Prop where
  tables : TablesWithin run.directory.tables (committedFiles run.onDisk.segments)
  phase : PhaseWithin run

/-- The invariant of directories. -/
def RowsOnDisk (directory : BuildDirectory) : Prop :=
  directory.removing = true ∨ TablesWithin directory.tables (committedFiles directory.segments)

/-- No segment is put aside when there is a files or baskets table, and none is committed when
    there is a schemas or access table. -/
def KeepsRows (run : BuildRun) : BuildStep → Prop
  | .examine index localFiles intact =>
      (run.directory.tables.files = none ∧ run.directory.tables.baskets = none) ∨
        ∀ segment ∈ run.unexamined[index]?,
          (run.restoreContext localFiles).accepts segment intact = true
  | .flush _ => run.directory.tables.schemas = none ∧ run.directory.tables.access = none
  | _ => True

/-- A step that leaves the tables and what is committed as they are. -/
theorem RowsKept.of_same {run t : BuildRun} (h : RowsKept run)
    (htables : t.directory.tables = run.directory.tables)
    (hperm : run.onDisk.segments.Perm t.onDisk.segments) (hphase : PhaseWithin t) :
    RowsKept t where
  tables := by
    rw [htables]
    exact h.tables.perm (committedFiles_perm hperm)
  phase := hphase

/-- A segment is put aside. -/
theorem RowsKept.quarantine {run : BuildRun} (h : RowsKept run) {index : Nat}
    {segment : SegmentDirectory} (hphase : run.phase = .restoring)
    (hsegment : run.unexamined[index]? = some segment)
    (hfiles : run.directory.tables.files = none) (hbaskets : run.directory.tables.baskets = none) :
    RowsKept { run with
      directory := { run.directory with
        segments := run.directory.segments ++ [{ segment with rejected := true }] }
      unexamined := run.unexamined.eraseIdx index } where
  tables := by
    refine h.tables.fewer (fun checkpoint hmem => ?_) hfiles hbaskets
    rw [BuildRun.onDisk] at hmem ⊢
    rw [committedFiles_append, committedFiles_append, committedFiles_singleton, if_pos rfl,
      List.append_nil] at hmem
    rw [(committedFiles_perm (examined_perm hsegment)).mem_iff, committedFiles_append,
      committedFiles_append]
    rcases List.mem_append.mp hmem with hmem | hmem
    · exact List.mem_append_left _ (List.mem_append_left _ hmem)
    · exact List.mem_append_right _ hmem
  phase := by
    rw [PhaseWithin]
    dsimp only
    rw [hphase]
    trivial

/-- A worker commits its buffer. -/
theorem RowsKept.flush {run : BuildRun} (h : RowsKept run) {index : Nat} {worker : IndexWorker}
    (hphase : run.phase = .indexing) (hschemas : run.directory.tables.schemas = none)
    (haccess : run.directory.tables.access = none) :
    RowsKept { run with
      directory := { run.directory with
        segments := run.directory.segments ++ [BuildRun.IndexWorker.segmentDirectory worker] }
      workers := run.workers.set index (BuildRun.IndexWorker.flushed worker) } where
  tables := by
    refine h.tables.more (fun checkpoint hmem => ?_) hschemas haccess
    rw [BuildRun.onDisk, committedFiles_append] at hmem
    rw [BuildRun.onDisk, committedFiles_append, committedFiles_append]
    rcases List.mem_append.mp hmem with hmem | hmem
    · exact List.mem_append_left _ (List.mem_append_left _ hmem)
    · exact List.mem_append_right _ hmem
  phase := by
    have hexamined := h.phase
    rw [PhaseWithin, hphase] at hexamined
    rw [PhaseWithin]
    dsimp only
    rw [hphase]
    exact hexamined

/-- One more table. -/
theorem RowsKept.compact {run : BuildRun} (h : RowsKept run) {table : Nat}
    (hphase : run.phase = .compacting table) :
    RowsKept { run with
      directory := { run.directory with
        tables := compactTable run.directory.tables (partTables run.directory.segments) table }
      phase := if table = 3 then .publishing else .compacting (table + 1) } := by
  have hcompacting := h.phase
  rw [PhaseWithin, hphase] at hcompacting
  obtain ⟨hexamined, hle, hbelow⟩ := hcompacting
  have hbelow' := hbelow.compact hle (partTables run.directory.segments)
  refine ⟨?_, ?_⟩
  · have htables := h.tables
    rw [BuildRun.onDisk] at htables ⊢
    dsimp only at htables ⊢
    rw [hexamined, List.append_nil] at htables ⊢
    exact htables.compact table
  · rw [PhaseWithin]
    dsimp only
    by_cases hlast : table = 3
    · rw [if_pos hlast]
      subst hlast
      exact ⟨hexamined, complete_of_below hbelow'⟩
    · rw [if_neg hlast]
      exact ⟨hexamined, by omega, hbelow'⟩

/-- The step lemma. -/
theorem RowsKept.stepped {run t : BuildRun} {label : BuildStep} (h : RowsKept run)
    (hkeeps : KeepsRows run label) (hstep : BuildRun.Stepped run label t) : RowsKept t := by
  have hexamined : run.phase = .indexing → run.unexamined = [] := by
    intro hphase
    have hindexing := h.phase
    rwa [PhaseWithin, hphase] at hindexing
  -- a step of the workers that commits nothing
  have hidle : ∀ (nextWorker : Nat) (undrawn : List RootIndexFilePlan) (okPaths : List String)
      (workers : List IndexWorker), run.phase = .indexing → RowsKept { run with
        directory := { run.directory with nextWorker := nextWorker }
        undrawn := undrawn
        okPaths := okPaths
        workers := workers } := by
    intro nextWorker undrawn okPaths workers hphase
    refine h.of_same rfl (List.Perm.refl _) ?_
    rw [PhaseWithin]
    dsimp only
    rw [hphase]
    exact hexamined hphase
  cases hstep with
  | writeRequest hphase => exact h.of_same rfl (List.Perm.refl _) trivial
  | inspect hphase hplans => exact h.of_same rfl (List.Perm.refl _) trivial
  | restore hphase hsegment haccepts =>
    refine h.of_same rfl (examined_perm hsegment) ?_
    rw [PhaseWithin]
    dsimp only
    rw [hphase]
    trivial
  | quarantine hphase hsegment haccepts =>
    rcases hkeeps with ⟨hfiles, hbaskets⟩ | haccepted
    · exact h.quarantine hphase hsegment hfiles hbaskets
    · rw [haccepted _ hsegment] at haccepts
      cases haccepts
  | beginIndexing hphase hrest => exact h.of_same rfl (List.Perm.refl _) hrest
  | openWriter hphase => exact hidle _ _ _ _ hphase
  | pass hphase => exact hidle _ _ _ _ hphase
  | index hphase => exact hidle _ _ _ _ hphase
  | flush hphase => exact h.flush hphase hkeeps.1 hkeeps.2
  | fail hphase => exact hidle _ _ _ _ hphase
  | finish hphase => exact hidle _ _ _ _ hphase
  | validate hphase =>
    refine h.of_same rfl (List.Perm.refl _) ⟨hexamined hphase, Nat.zero_le _, ?_⟩
    exact fun k hk => absurd hk (Nat.not_lt_zero k)
  | compact hphase => exact h.compact hphase

theorem carries_rows : OutputDirectory.Carries Whole KeepsRows RowsOnDisk RowsKept where
  fresh request resume id := by
    refine ⟨⟨?_, ?_, ?_, ?_⟩, trivial⟩ <;> exact fun _ hrows => (by cases hrows)
  resumed request id directory hdisk hwhole := by
    rcases hdisk with hremoving | htables
    · exact absurd (hwhole.symm.trans hremoving) Bool.false_ne_true
    · exact ⟨htables.perm (committedFiles_perm (List.filter_append_perm _ _).symm), trivial⟩
  step run label t h hkeeps hstep := h.stepped hkeeps hstep
  onDisk run h := .inr h.tables
  remnant directory keep keepTable keepRequest h := .inl rfl

/-- The conditions on the tables and on the schema rows. -/
def KeepsClosed (run : BuildRun) (label : BuildStep) : Prop :=
  KeepsRows run label ∧ KeepsSchemas run label

instance (run : BuildRun) : (label : BuildStep) → Decidable (KeepsRows run label)
  | .examine index localFiles intact => inferInstanceAs (Decidable
      ((run.directory.tables.files = none ∧ run.directory.tables.baskets = none) ∨
        ∀ segment ∈ run.unexamined[index]?,
          (run.restoreContext localFiles).accepts segment intact = true))
  | .flush _ => inferInstanceAs (Decidable
      (run.directory.tables.schemas = none ∧ run.directory.tables.access = none))
  | .writeRequest | .inspect _ | .beginIndexing | .openWriter _ | .draw .. | .retire .. |
      .validate | .compact => inferInstanceAs (Decidable True)

instance (run : BuildRun) (label : BuildStep) : Decidable (KeepsClosed run label) :=
  inferInstanceAs (Decidable (KeepsRows run label ∧ KeepsSchemas run label))

/-! ### A segment that is put aside -/

/-- The segment of `b.root` is put aside instead, which brings no schema row, and `b.root` is
    indexed again. -/
def loseSecondSegment : List BuildAction :=
  let localFiles : LocalFiles := ⟨fun _ => 100, fun path => if path = "b.root" then 8 else 7⟩
  [.start twoFilesPartial false 1, .step .writeRequest, .step (.inspect fun _ => .ok 2),
    .step .beginIndexing, .step (.openWriter 0), .step (.draw 0 (some (memberX 2))),
    .step (.flush 0), .step (.draw 0 (some (memberX 2))), .step (.flush 0), .crash,
    .start twoFilesPartial true 2, .step (.inspect fun _ => .ok 2),
    .step (.examine 0 localFiles true), .step (.examine 0 localFiles true), .step .beginIndexing,
    .step (.openWriter 0), .step (.draw 0 none), .step (.draw 0 (some (memberX 2))),
    .step (.flush 0), .step (.retire 0 false), .step .validate,
    .step .compact, .step .compact, .step .compact, .step .compact]

end RootLake.Index

/-
  RootLake/Iceberg/CatalogReader.lean
  ===================================
  **What a reader gets of a published generation.**

  The reader resolves a generation through the commit table and the snapshots that the
  generation has written down, and a path through the path sources.  Both are queries over the
  tables that `Publication` fills; here they are answered from the state of a catalog, so that
  the reader of `CatalogRelations` and the publisher meet.
-/
import RootLake.Iceberg.CommittedGenerations
import RootLake.Dataset.CatalogRelations
import Mathlib.Data.List.Dedup
import Mathlib.Data.List.Basic

namespace RootLake.Iceberg

open RootLake.AppendLog RootLake.ExceptRules RootLake.Iceberg.Lake
open RootLake.Dataset (World Answers FileTask CatalogSources CatalogParameters Session Relation
  rootIcebergRelation taskPath taskPaths sqlLiteral openCatalog resolveIceberg pathSnapshot
  resolveSources snapshotVersions requiredVersion query)

variable {Metadata Schema : Type} {root : String} {facts : PartFacts Metadata Schema}
variable {lake next : Lake Metadata Schema} {generation : String} {name : TableName}

/-! ### The catalog as a reader finds it -/

def allTables : List TableName := recordedTables ++ [.snapshots, .commits]

def fileTask (file : DataFile) : FileTask := ⟨some file.filePath.toList, false⟩

/-- A scan of a table at the snapshot `id`, or at the current one if that is 0. -/
def plannedFiles (table : MetadataTable Metadata Schema) (id : Int) : Option (List DataFile) :=
  if id = 0 then some (current table.versions) else filesAt table.versions id

def planFiles (lake : Lake Metadata Schema) (table : String) (id : Int) :
    Except String (List FileTask) :=
  match allTables.find? (·.text = table) with
  | none => .error ("Missing root_index." ++ table ++ " in Iceberg catalog")
  | some name =>
      if (lake.tables name).schema.isNone then
        .error ("Missing root_index." ++ table ++ " in Iceberg catalog")
      else
        match plannedFiles (lake.tables name) id with
        | none => .error ("build Iceberg scan for root_index." ++ table)
        | some files => .ok (files.map fileTask)

def catalogWorld (lake : Lake Metadata Schema) : World where
  isRootIcebergCatalog _ := true
  planFiles _ := planFiles lake
  pathExists _ := false
  manifest _ := .error "Cannot open ROOT lake catalog manifest"

/-- The generation has a commit record. -/
def HasCommit (root : String) (lake : Lake Metadata Schema) (generation : String) : Prop :=
  ∃ row ∈ lake.latestCommits root, row.rootSnapshotId = generation

instance : Decidable (HasCommit root lake generation) :=
  inferInstanceAs (Decidable (∃ row ∈ _, _))

def snapshotMapping (lake : Lake Metadata Schema) (generation : String) : List (String × Int) :=
  ((lake.rowsOf .snapshots Part.snapshotRows (current (lake.tables .snapshots).versions)).filter
    (·.rootSnapshotId = generation)).map fun row => (row.tableName, row.icebergSnapshotId)

/-- The path sources in the snapshot that the generation has written down. -/
def pathRowsAt (lake : Lake Metadata Schema) (generation : String) : List PathRow :=
  match (snapshotMapping lake generation).lookup "path_sources" with
  | none => []
  | some id =>
      lake.rowsOf .pathSources Part.pathRows
        ((plannedFiles (lake.tables .pathSources) id).getD [])

/-- The answers to the queries of a reader that resolves a path in a generation. -/
def catalogAnswers (root : String) (lake : Lake Metadata Schema) (generation path : String) :
    Answers where
  latestGeneration :=
    if HasCommit root lake generation then .ok generation
    else .error "Requested ROOT Iceberg index generation is not committed"
  snapshotMapping := .ok (snapshotMapping lake generation)
  committedSnapshot := .error "Committed ROOT dataset generation not found"
  pathOrigins :=
    .ok ((((pathRowsAt lake generation).filter fun row =>
      row.rootSnapshotId = generation ∧ row.logicalPath = path).map
        (·.physicalSnapshotId)).dedup)
  generationRows :=
    .ok ((pathRowsAt lake generation).filter (·.rootSnapshotId = generation)).length
  accessPlans := .ok []
  accessPlan _ := .ok ()
  rows := .ok ()

section Reader

variable (root lake) (catalogPath : List Char) (parameters : CatalogParameters)

/-- A catalog is opened at a generation: the one asked for, or one of the newest. -/
def openGeneration (generation path : String) : Except String CatalogSources :=
  (openCatalog (catalogWorld lake) (catalogAnswers root lake generation path) catalogPath
    parameters).result

/-- `PathSnapshot` of a catalog that is opened at the generation. -/
def resolvePath (generation path : String) : Except String String := do
  let sources ← openGeneration root lake catalogPath parameters generation path
  (pathSnapshot (catalogAnswers root lake generation path) sources).result

end Reader

/-! ### Relations -/

/-- The text of a relation over data files. -/
def relationText (files : List DataFile) : List Char :=
  "read_parquet([".toList ++ List.intercalate [','] (files.map fun file =>
    sqlLiteral (if "file://".toList.isPrefixOf file.filePath.toList then
      file.filePath.toList.drop 7 else file.filePath.toList)) ++ "], union_by_name=true)".toList

theorem relationText_ne_nil (files : List DataFile) : relationText files ≠ [] := by
  intro hnil
  exact absurd (List.append_eq_nil_iff.mp hnil).2 (by decide)

def sourceOf (sources : CatalogSources) : TableName → Relation
  | .files => sources.files
  | .schemas => sources.schemas
  | .access => sources.access
  | .baskets => sources.baskets
  | .pathSources => sources.pathSources
  | .snapshots => sources.snapshots
  | .commits => sources.commits

theorem taskPaths_fileTask {files : List DataFile} (h : files ≠ []) :
    taskPaths (files.map fileTask) = .ok (files.map fun file =>
      sqlLiteral (if "file://".toList.isPrefixOf file.filePath.toList then
        file.filePath.toList.drop 7 else file.filePath.toList)) := by
  rw [taskPaths, if_neg (by simpa using h), mapM_ok_iff, List.forall₂_map_left_iff,
    List.forall₂_map_right_iff, List.forall₂_same]
  intro file _
  rfl

theorem rootIcebergRelation_planned (catalogPath : List Char) {table : String}
    (hname : allTables.find? (·.text = table) = some name)
    (hcreated : (lake.tables name).schema.isSome) {id : Int} {files : List DataFile}
    (hfiles : plannedFiles (lake.tables name) id = some files) (hne : files ≠ []) :
    rootIcebergRelation (catalogWorld lake) catalogPath table id =
      .ok { text := relationText files, produced := true } := by
  have hplan : planFiles lake table id = .ok (files.map fileTask) := by
    rw [planFiles, hname]
    simp only [hfiles]
    rw [if_neg (by simpa [Option.isSome_iff_ne_none] using hcreated)]
  refine bind_ok_iff.mpr ⟨_, hplan, ?_⟩
  exact bind_ok_iff.mpr ⟨_, taskPaths_fileTask hne, rfl⟩

/-! ### What a generation has recorded -/

/-- The snapshots that a generation has written down, and the files that they list. -/
structure Recorded (lake : Lake Metadata Schema) (generation : String) (ids : TableName → Int)
    (files : TableName → List DataFile) : Prop where
  mapping : snapshotMapping lake generation =
    recordedTables.map fun name => (name.text, ids name)
  positive : ∀ name ∈ recordedTables, 0 < ids name
  files : ∀ name ∈ recordedTables,
    filesAt (lake.tables name).versions (ids name) = some (files name)

theorem savedSnapshot_of_mem {rows : List SnapshotRow} (h : (rows.map (·.tableName)).Nodup)
    {row : SnapshotRow} (hrow : row ∈ rows) :
    savedSnapshot rows row.tableName = some row.icebergSnapshotId := by
  rw [savedSnapshot]
  cases hfound : rows.find? (·.tableName = row.tableName) with
  | none => exact absurd (decide_eq_true rfl) (List.find?_eq_none.mp hfound row hrow)
  | some found =>
    have hname : found.tableName = row.tableName := by simpa using List.find?_some hfound
    rw [List.inj_on_of_nodup_map h (List.mem_of_find?_eq_some hfound) hrow hname]
    rfl

/-- The mapping of rows for the recorded tables. -/
theorem exists_ids {rows : List SnapshotRow}
    (h : rows.map (·.tableName) = recordedTables.map TableName.text) :
    ∃ ids : TableName → Int, rows.map (fun row => (row.tableName, row.icebergSnapshotId)) =
      recordedTables.map (fun name => (name.text, ids name)) ∧
        ∀ name ∈ recordedTables, ∃ row ∈ rows, row.tableName = name.text ∧
          row.icebergSnapshotId = ids name := by
  have hnodup : (rows.map (·.tableName)).Nodup := by
    rw [h]
    exact List.Nodup.map TableName.text_injective (by decide)
  let saved := fun name => (savedSnapshot rows name).getD 0
  have hsaved : ∀ row ∈ rows, row.icebergSnapshotId = saved row.tableName := by
    intro row hrow
    simp only [saved, savedSnapshot_of_mem hnodup hrow, Option.getD_some]
  refine ⟨fun name => saved name.text, ?_, ?_⟩
  · calc rows.map (fun row => (row.tableName, row.icebergSnapshotId))
        = rows.map fun row => (row.tableName, saved row.tableName) :=
          List.map_congr_left fun row hrow => by rw [hsaved row hrow]
      _ = (rows.map (·.tableName)).map fun name => (name, saved name) := by
          rw [List.map_map]
          rfl
      _ = recordedTables.map fun name => (name.text, saved name.text) := by
          rw [h, List.map_map]
          rfl
  · intro name hname
    have hmem : name.text ∈ rows.map (·.tableName) := h ▸ List.mem_map_of_mem hname
    obtain ⟨row, hrow, htable⟩ := List.mem_map.mp hmem
    refine ⟨row, hrow, htable, ?_⟩
    rw [hsaved row hrow, htable]

theorem Consistent.exists_recorded (h : Consistent root lake)
    (hcommitted : lake.Committed root generation) :
    ∃ ids files, Recorded lake generation ids files ∧
      (∀ name ∈ recordedTables,
        ((files name).map (·.filePath)).count (fileUri root name generation) = 1) ∧
      ∃ part, lake.placed root .pathSources generation = some part ∧
        ∀ name ∈ baseTables, ∀ source ∈ part.pathRows,
          ((files name).map (·.filePath)).count
            (fileUri root name source.physicalSnapshotId) = 1 := by
  obtain ⟨parts, hparts⟩ := h.relation (h.complete generation hcommitted .snapshots)
  have hrecord := h.snapshotRows hcommitted hparts
  rw [relation_rows hparts] at hrecord
  obtain ⟨ids, hids, hrow⟩ := exists_ids hrecord.tables
  have hfiles : ∀ name ∈ recordedTables,
      ∃ files, filesAt (lake.tables name).versions (ids name) = some files ∧
        (files.map (·.filePath)).count (fileUri root name generation) = 1 := by
    intro name hname
    obtain ⟨row, hmem, htable, hid⟩ := hrow name hname
    rw [← hid]
    exact (hrecord.listsAt name hname row hmem htable).filesAt (h.sound name)
  choose! files hfiles using hfiles
  refine ⟨ids, files, ⟨hids, ?_, fun name hname => (hfiles name hname).1⟩,
    fun name hname => (hfiles name hname).2, ?_⟩
  · intro name hname
    obtain ⟨row, hmem, -, hid⟩ := hrow name hname
    exact hid ▸ hrecord.positive row hmem
  · obtain ⟨part, hpart, horigins⟩ := hrecord.origins
    refine ⟨part, hpart, fun name hname source hsource => ?_⟩
    have hrecorded := List.mem_append_left [TableName.pathSources] hname
    obtain ⟨row, hmem, htable, hid⟩ := hrow name hrecorded
    have hlists := horigins name hname row hmem htable source hsource
    rw [hid] at hlists
    obtain ⟨listed, hlisted, hcount⟩ := hlists.filesAt (h.sound name)
    obtain rfl := Option.some.inj ((hfiles name hrecorded).1.symm.trans hlisted)
    exact hcount

theorem ne_nil_of_count {files : List DataFile} {uri : String}
    (h : (files.map (·.filePath)).count uri = 1) : files ≠ [] := by
  rintro rfl
  rw [List.map_nil, List.count_nil] at h
  cases h

theorem Consistent.hasCommit (h : Consistent root lake) :
    HasCommit root lake generation ↔ lake.Committed root generation := by
  constructor
  · rintro ⟨row, hrow, rfl⟩
    exact h.committed_of_mem hrow
  · intro hcommitted
    obtain ⟨parts, hparts⟩ := h.relation hcommitted
    obtain ⟨part, hpart⟩ := h.placed hcommitted
    obtain ⟨manifest, dictionary, now, hrows⟩ :=
      (h.parts generation .commits part (.inr hpart) : Receipt generation _)
    obtain ⟨file, hfile, huri⟩ := List.mem_map.mp hcommitted
    refine ⟨⟨generation, "COMMITTED", manifest, dictionary, now⟩, ?_, rfl⟩
    rw [latestCommits, hparts]
    refine List.mem_filter.mpr ⟨List.mem_flatMap.mpr ⟨part, ?_, ?_⟩, rfl⟩
    · rw [relation_ok hparts]
      refine List.mem_filterMap.mpr ⟨file, hfile, ?_⟩
      rw [huri]
      exact hpart
    · rw [hrows]
      exact List.mem_singleton_self _

/-! ### Opening a generation -/

def recordedSources (generation : String) (files : TableName → List DataFile) :
    CatalogSources where
  files := ⟨relationText (files .files), true⟩
  schemas := ⟨relationText (files .schemas), true⟩
  access := ⟨relationText (files .access), true⟩
  baskets := ⟨relationText (files .baskets), true⟩
  pathSources := ⟨relationText (files .pathSources), true⟩
  snapshotId := generation
  sqlTables := true

theorem sourceOf_recordedSources (files : TableName → List DataFile)
    (hname : name ∈ recordedTables) :
    (sourceOf (recordedSources generation files) name).text = relationText (files name) := by
  cases name with
  | snapshots => exact absurd hname (by decide)
  | commits => exact absurd hname (by decide)
  | files => rfl
  | schemas => rfl
  | access => rfl
  | baskets => rfl
  | pathSources => rfl

/-- The map of the versions, the last one entered first. -/
def recordedVersions (ids : TableName → Int) : List (String × Int) :=
  recordedTables.reverse.map fun name => (name.text, ids name)

theorem lookup_recordedVersions (ids : TableName → Int) (hname : name ∈ recordedTables) :
    (recordedVersions ids).lookup name.text = some (ids name) := by
  cases name with
  | snapshots => exact absurd hname (by decide)
  | commits => exact absurd hname (by decide)
  | files => simp [recordedVersions, recordedTables, baseTables, TableName.text, List.lookup_cons]
  | schemas => simp [recordedVersions, recordedTables, baseTables, TableName.text, List.lookup_cons]
  | access => simp [recordedVersions, recordedTables, baseTables, TableName.text, List.lookup_cons]
  | baskets => simp [recordedVersions, recordedTables, baseTables, TableName.text, List.lookup_cons]
  | pathSources => simp [recordedVersions, recordedTables, baseTables, TableName.text]

theorem requiredVersion_recorded (ids : TableName → Int) (hname : name ∈ recordedTables) :
    requiredVersion (recordedVersions ids) name.text = .ok (ids name) := by
  rw [requiredVersion, lookup_recordedVersions ids hname]

theorem snapshotVersions_recorded {ids : TableName → Int}
    (hpositive : ∀ name ∈ recordedTables, 0 < ids name) :
    snapshotVersions (recordedTables.map fun name => (name.text, ids name)) [] =
      .ok (recordedVersions ids) := by
  have hpos : ∀ name ∈ recordedTables, ¬ids name ≤ 0 := fun name hname =>
    Int.not_le.mpr (hpositive name hname)
  simp only [recordedTables, baseTables, List.cons_append, List.nil_append, List.mem_cons,
    List.not_mem_nil, or_false, forall_eq_or_imp, forall_eq] at hpos
  obtain ⟨hfiles, hschemas, haccess, hbaskets, hpaths⟩ := hpos
  simp [recordedVersions, recordedTables, baseTables, snapshotVersions, TableName.text,
    hfiles, hschemas, haccess, hbaskets, hpaths]

/-- **Opening a committed generation succeeds**, at the snapshots it has written down. -/
theorem openGeneration_eq (h : Consistent root lake) (hcommitted : lake.Committed root generation)
    {ids : TableName → Int} {files : TableName → List DataFile}
    (hrecorded : Recorded lake generation ids files)
    (hne : ∀ name ∈ recordedTables, files name ≠ [])
    (catalogPath : List Char) (parameters : CatalogParameters) (path : String) :
    openGeneration root lake catalogPath parameters generation path =
      .ok (recordedSources generation files) := by
  have hcurrent : ∀ name, current (lake.tables name).versions ≠ [] := by
    intro name hnil
    have hlisted := h.complete generation hcommitted name
    rw [Listed, hnil] at hlisted
    exact List.not_mem_nil hlisted
  have hcreated : ∀ name, (lake.tables name).schema.isSome := by
    intro name
    apply h.created name
    intro hnil
    exact hcurrent name (by rw [hnil]; rfl)
  have hplanned : ∀ name ∈ recordedTables,
      rootIcebergRelation (catalogWorld lake) catalogPath name.text (ids name) =
        .ok { text := relationText (files name), produced := true } := by
    intro name hname
    apply rootIcebergRelation_planned catalogPath ?_ (hcreated name) ?_ (hne name hname)
    · cases name <;> rfl
    · rw [plannedFiles, if_neg (Int.ne_of_gt (hrecorded.positive name hname))]
      exact hrecorded.files name hname
  have hcommits : rootIcebergRelation (catalogWorld lake) catalogPath "commits" 0 =
      .ok { text := relationText (current (lake.tables .commits).versions), produced := true } :=
    rootIcebergRelation_planned catalogPath rfl (hcreated _) rfl (hcurrent _)
  have hsnapshots : rootIcebergRelation (catalogWorld lake) catalogPath "snapshots" 0 =
      .ok { text := relationText (current (lake.tables .snapshots).versions), produced := true } :=
    rootIcebergRelation_planned catalogPath rfl (hcreated _) rfl (hcurrent _)
  have hcommit := h.hasCommit.mpr hcommitted
  have hversions := snapshotVersions_recorded hrecorded.positive
  have hresolve : (resolveSources (catalogWorld lake) (catalogAnswers root lake generation path)
      catalogPath parameters).result = .ok (recordedSources generation files) := by
    have hiceberg : (catalogWorld lake).isRootIcebergCatalog catalogPath = true := rfl
    have hfiles := requiredVersion_recorded ids (show .files ∈ recordedTables by decide)
    have hschemas := requiredVersion_recorded ids (show .schemas ∈ recordedTables by decide)
    have haccess := requiredVersion_recorded ids (show .access ∈ recordedTables by decide)
    have hbaskets := requiredVersion_recorded ids (show .baskets ∈ recordedTables by decide)
    have hpaths := lookup_recordedVersions ids (show .pathSources ∈ recordedTables by decide)
    simp only [TableName.text] at hfiles hschemas haccess hbaskets hpaths
    have hplannedFiles := hplanned .files (by decide)
    have hplannedSchemas := hplanned .schemas (by decide)
    have hplannedAccess := hplanned .access (by decide)
    have hplannedBaskets := hplanned .baskets (by decide)
    have hplannedPaths := hplanned .pathSources (by decide)
    simp only [TableName.text] at hplannedFiles hplannedSchemas hplannedAccess
    simp only [TableName.text] at hplannedBaskets hplannedPaths
    rw [resolveSources, if_pos hiceberg]
    simp only [resolveIceberg, query, Logged.result_bind, Logged.result_lift,
      Logged.result_perform, Logged.result_pure, catalogAnswers, if_pos hcommit, hcommits,
      hsnapshots, hrecorded.mapping, hversions, ok_bind, hfiles, hschemas, haccess, hbaskets,
      hpaths, hplannedFiles, hplannedSchemas, hplannedAccess, hplannedBaskets, hplannedPaths]
    rfl
  rw [openGeneration, openCatalog, Logged.result_bind, hresolve]
  rfl

/-! ### Resolving a path -/

/-- The path sources that a generation reads of itself are those of its part. -/
theorem Consistent.pathRowsAt (h : Consistent root lake) {ids : TableName → Int}
    {files : TableName → List DataFile} (hrecorded : Recorded lake generation ids files)
    (hlisted : fileUri root .pathSources generation ∈ (files .pathSources).map (·.filePath))
    {part : Part Metadata} (hpart : lake.placed root .pathSources generation = some part) :
    (Iceberg.pathRowsAt lake generation).filter (fun row => row.rootSnapshotId = generation) =
      part.pathRows := by
  have hpaths : TableName.pathSources ∈ recordedTables := by decide
  have hid : (snapshotMapping lake generation).lookup "path_sources" =
      some (ids .pathSources) := by
    rw [hrecorded.mapping]
    simp [recordedTables, baseTables, TableName.text, List.lookup_cons]
  have hfiles := hrecorded.files .pathSources hpaths
  have hplanned : plannedFiles (lake.tables .pathSources) (ids .pathSources) =
      some (files .pathSources) := by
    rw [plannedFiles, if_neg (Int.ne_of_gt (hrecorded.positive _ hpaths)), hfiles]
  have howner : ∀ other part, lake.placed root .pathSources other = some part →
      ∀ row ∈ part.pathRows, row.rootSnapshotId = other := fun other part hpart =>
    (h.parts other .pathSources part (.inr hpart) : Lineage root lake other part.pathRows).own
  rw [Iceberg.pathRowsAt, hid]
  simp only [hplanned, Option.getD_some]
  exact h.filter_rowsOf howner (h.files_filesAt hfiles) hlisted hpart

/-- **A path of a committed generation has the origin its part names**, and no other path has. -/
theorem resolvePath_eq (h : Consistent root lake) (hcommitted : lake.Committed root generation)
    {part : Part Metadata} (hpart : lake.placed root .pathSources generation = some part)
    (catalogPath : List Char) (parameters : CatalogParameters) (path : String) :
    resolvePath root lake catalogPath parameters generation path =
      match part.pathRows.find? (·.logicalPath = path) with
      | some row => .ok row.physicalSnapshotId
      | none => .error "ROOT path is absent from selected generation" := by
  obtain ⟨ids, files, hrecorded, hcount, -⟩ := h.exists_recorded hcommitted
  have hmem : ∀ name ∈ recordedTables,
      fileUri root name generation ∈ (files name).map (·.filePath) := fun name hname =>
    List.count_pos_iff.mp (by rw [hcount name hname]; exact Nat.one_pos)
  have hne : ∀ name ∈ recordedTables, files name ≠ [] := fun name hname =>
    ne_nil_of_count (hcount name hname)
  have hlineage : Lineage root lake generation part.pathRows :=
    h.parts generation .pathSources part (.inr hpart)
  have hrows := h.pathRowsAt hrecorded (hmem .pathSources (by decide)) hpart
  have horigins : ((pathRowsAt lake generation).filter fun row =>
      row.rootSnapshotId = generation ∧ row.logicalPath = path) =
        part.pathRows.filter fun row => row.logicalPath = path := by
    rw [← hrows, List.filter_filter]
    congr 1
    funext row
    simp [Bool.and_comm]
  have hrecordedSources : ¬(((recordedSources generation files).pathSources.text.isEmpty ||
      decide ((recordedSources generation files).snapshotId = "")) = true) := by
    rw [Bool.or_eq_true, not_or, List.isEmpty_iff, decide_eq_true_eq]
    exact ⟨relationText_ne_nil _, h.named _ _ hcommitted⟩
  rw [resolvePath, openGeneration_eq h hcommitted hrecorded hne, ok_bind, pathSnapshot,
    if_neg hrecordedSources]
  simp only [query, Logged.result_bind, Logged.result_perform, catalogAnswers, ok_bind, horigins,
    hrows]
  cases hfind : part.pathRows.find? (·.logicalPath = path) with
  | some row =>
    have hrow := List.mem_of_find?_eq_some hfind
    have hpath : row.logicalPath = path := by simpa using List.find?_some hfind
    have hfilter := filter_key_eq hlineage.paths hrow
    rw [hpath] at hfilter
    rw [hfilter]
    rfl
  | none =>
    have hfilter : part.pathRows.filter (fun row => row.logicalPath = path) = [] := by
      rw [List.filter_eq_nil_iff]
      exact List.find?_eq_none.mp hfind
    have hlength : part.pathRows.length ≠ 0 := by
      simpa using hlineage.nonempty
    rw [hfilter]
    simp only [List.map_nil, List.dedup_nil, Logged.result_bind, Logged.result_perform, ok_bind,
      if_pos hlength, Logged.result_lift]

/-- **A committed generation can be read.** It opens at the snapshots it has written down; the
    files of each relation exist, the generation's own is among them once, and so is that of
    the origin of every path it resolves. -/
theorem committed_generation_opens (h : (publications root facts).Reachable lake)
    (hcommit : HasCommit root lake generation) (catalogPath : List Char)
    (parameters : CatalogParameters) (path : String) :
    ∃ sources, openGeneration root lake catalogPath parameters generation path = .ok sources ∧
      sources.snapshotId = generation ∧
        ∀ name ∈ recordedTables, ∃ files : List DataFile,
          (sourceOf sources name).text = relationText files ∧
            (∀ file ∈ files, ((lake.tables name).data file.filePath).isSome) ∧
            (files.map (·.filePath)).count (fileUri root name generation) = 1 ∧
            ∀ origin, name ∈ baseTables →
              resolvePath root lake catalogPath parameters generation path = .ok origin →
                (files.map (·.filePath)).count (fileUri root name origin) = 1 := by
  have hconsistent := (invariant_of_reachable h).consistent
  have hcommitted := hconsistent.hasCommit.mp hcommit
  obtain ⟨ids, files, hrecorded, hcount, part, hpart, horigins⟩ :=
    hconsistent.exists_recorded hcommitted
  have hne : ∀ name ∈ recordedTables, files name ≠ [] := fun name hname =>
    ne_nil_of_count (hcount name hname)
  refine ⟨_, openGeneration_eq hconsistent hcommitted hrecorded hne _ _ _, rfl, ?_⟩
  intro name hname
  refine ⟨files name, sourceOf_recordedSources files hname, ?_, hcount name hname, ?_⟩
  · intro file hfile
    have hcurrent := (hconsistent.files_filesAt (hrecorded.files name hname)).subset hfile
    obtain ⟨other, held, huri, hheld⟩ := hconsistent.files name file hcurrent
    rw [huri, ← Lake.placed, hheld]
    rfl
  · intro origin hbase hresolve
    rw [resolvePath_eq hconsistent hcommitted hpart] at hresolve
    split at hresolve
    · rename_i row hrow
      obtain rfl := Except.ok.inj hresolve
      exact horigins name hbase row (List.mem_of_find?_eq_some hrow)
    · cases hresolve

def noParameters : CatalogParameters := ⟨[], [], [], [], [], [], [], ""⟩

theorem twoGenerations_resolve : ∃ lake : Lake Nat Unit,
    (publications "" plainFacts).Reachable lake ∧ HasCommit "" lake "2" ∧
      resolvePath "" lake [] noParameters "2" "pt" = .ok "1" := by
  have hrun : (Runs.runSteps (Lake.step "" plainFacts) emptyLake twoGenerations).any
      (fun lake => HasCommit "" lake "2" ∧
        (resolvePath "" lake [] noParameters "2" "pt").toOption = some "1") = true := by
    decide +kernel
  obtain ⟨lake, hlake, hresolve⟩ := (Option.any_eq_true _ _).mp hrun
  obtain ⟨hcommit, hresolve⟩ := of_decide_eq_true hresolve
  refine ⟨lake, plainRun_reachable hlake, hcommit, ?_⟩
  cases h : resolvePath "" lake [] noParameters "2" "pt" with
  | error e =>
    rw [h] at hresolve
    cases hresolve
  | ok origin =>
    rw [h] at hresolve
    rw [Option.some.inj hresolve]

theorem committed_generation_opens_two : ∃ (lake : Lake Nat Unit) (sources : CatalogSources),
    openGeneration "" lake [] noParameters "2" "pt" = .ok sources ∧
      ∃ files : List DataFile, sources.files.text = relationText files ∧
        (files.map (·.filePath)).count (fileUri "" .files "1") = 1 := by
  obtain ⟨lake, hreached, hcommit, hresolve⟩ := twoGenerations_resolve
  obtain ⟨sources, hopen, -, hfiles⟩ :=
    committed_generation_opens hreached hcommit [] noParameters "pt"
  obtain ⟨files, htext, -, -, horigins⟩ := hfiles .files (by decide)
  exact ⟨lake, sources, hopen, files, htext, horigins "1" (by decide) hresolve⟩

/-! ### The lineage of paths -/

/-- A path resolves to an origin just when there is a row that says so. -/
theorem resolvePath_ok_iff (h : Consistent root lake) (hcommitted : lake.Committed root generation)
    {part : Part Metadata} (hpart : lake.placed root .pathSources generation = some part)
    (catalogPath : List Char) (parameters : CatalogParameters) (path origin : String) :
    resolvePath root lake catalogPath parameters generation path = .ok origin ↔
      ∃ row ∈ part.pathRows, row.logicalPath = path ∧ row.physicalSnapshotId = origin := by
  have hlineage : Lineage root lake generation part.pathRows :=
    h.parts generation .pathSources part (.inr hpart)
  rw [resolvePath_eq h hcommitted hpart]
  cases hfind : part.pathRows.find? (·.logicalPath = path) with
  | none =>
    constructor
    · exact fun hresolve => nomatch hresolve
    · rintro ⟨row, hrow, hpath, -⟩
      exact absurd (decide_eq_true hpath) (List.find?_eq_none.mp hfind row hrow)
  | some found =>
    have hfound := List.mem_of_find?_eq_some hfind
    have hfoundPath : found.logicalPath = path := by simpa using List.find?_some hfind
    constructor
    · intro hresolve
      exact ⟨found, hfound, hfoundPath, Except.ok.inj hresolve⟩
    · rintro ⟨row, hrow, hpath, rfl⟩
      rw [List.inj_on_of_nodup_map hlineage.paths hfound hrow (hfoundPath.trans hpath.symm)]

/-- **Paths keep their origins.** A path of a committed generation resolves to the committed
    generation that has indexed it, which resolves it to itself.  A generation that extends
    another resolves all its paths as that one does, and its other paths to itself. -/
theorem path_origins (h : (publications root facts).Reachable lake)
    (hcommit : HasCommit root lake generation) (catalogPath : List Char)
    (parameters : CatalogParameters) :
    (∀ path origin,
      resolvePath root lake catalogPath parameters generation path = .ok origin →
        HasCommit root lake origin ∧
          resolvePath root lake catalogPath parameters origin path = .ok origin) ∧
      ∀ parts, lake.relation root .pathSources = .ok parts →
        ∀ row ∈ parts.flatMap Part.pathRows, row.rootSnapshotId = generation →
          row.parentRootSnapshotId ≠ "" →
            HasCommit root lake row.parentRootSnapshotId ∧
              ∀ path origin,
                resolvePath root lake catalogPath parameters generation path = .ok origin ↔
                  resolvePath root lake catalogPath parameters row.parentRootSnapshotId path =
                    .ok origin ∨
                  (origin = generation ∧
                    resolvePath root lake catalogPath parameters generation path =
                      .ok generation) := by
  have hconsistent := (invariant_of_reachable h).consistent
  have hcommitted := hconsistent.hasCommit.mp hcommit
  have hlisted := hconsistent.complete generation hcommitted .pathSources
  obtain ⟨part, hpart⟩ := hconsistent.placed hlisted
  have hlineage : Lineage root lake generation part.pathRows :=
    hconsistent.parts generation .pathSources part (.inr hpart)
  have hresolve := resolvePath_ok_iff hconsistent hcommitted hpart catalogPath parameters
  constructor
  · intro path origin horigin
    obtain ⟨row, hrow, rfl, rfl⟩ := (hresolve path origin).mp horigin
    rcases hlineage.origins row hrow with hown | ⟨hindexed, source, hsource, hrows⟩
    · rw [hown] at horigin ⊢
      exact ⟨hcommit, horigin⟩
    · refine ⟨hconsistent.hasCommit.mpr hindexed, ?_⟩
      exact (resolvePath_ok_iff hconsistent hindexed hsource catalogPath parameters _ _).mpr hrows
  · intro parts hparts row hrow hgeneration hparent
    have hin : row ∈ part.pathRows := by
      have howner : ∀ other part, lake.placed root .pathSources other = some part →
          ∀ row ∈ part.pathRows, row.rootSnapshotId = other := fun other part hpart =>
        (hconsistent.parts other .pathSources part (.inr hpart) :
          Lineage root lake other part.pathRows).own
      rw [← hconsistent.filter_rowsOf howner (List.Sublist.refl _) hlisted hpart,
        ← relation_rows hparts]
      exact List.mem_filter.mpr ⟨hrow, decide_eq_true hgeneration⟩
    obtain ⟨parent, hparents, hextension⟩ := hlineage.parent
    obtain rfl := hparents row hin
    rcases hextension with ⟨hempty, -⟩ | hextension
    · exact absurd hempty hparent
    · obtain ⟨parentPart, hparentPart, hkeeps, hinherits⟩ := hextension.keeps
      have hparentResolve := resolvePath_ok_iff hconsistent hextension.committed hparentPart
        catalogPath parameters
      refine ⟨hconsistent.hasCommit.mpr hextension.committed, fun path origin => ?_⟩
      constructor
      · intro horigin
        obtain ⟨own, hown, rfl, rfl⟩ := (hresolve path origin).mp horigin
        rcases hinherits own hown with hself | hsource
        · exact .inr ⟨hself, hself ▸ horigin⟩
        · exact .inl ((hparentResolve _ _).mpr hsource)
      · rintro (horigin | ⟨rfl, horigin⟩)
        · obtain ⟨source, hsource, rfl, rfl⟩ := (hparentResolve path origin).mp horigin
          exact (hresolve _ _).mpr (hkeeps source hsource)
        · exact horigin

theorem path_origins_two : ∃ lake : Lake Nat Unit,
    resolvePath "" lake [] noParameters "2" "pt" = .ok "1" ∧
      HasCommit "" lake "1" ∧ resolvePath "" lake [] noParameters "1" "pt" = .ok "1" := by
  obtain ⟨lake, hreached, hcommit, hresolve⟩ := twoGenerations_resolve
  exact ⟨lake, hresolve, (path_origins hreached hcommit [] noParameters).1 "pt" "1" hresolve⟩

end RootLake.Iceberg

/-
  RootLake/Production/IcebergCommit.lean
  ======================================
  **The commit of validated chunks into Iceberg tables.**

  `commit_iceberg.sh` has the chunks of a plan validated and then inserts into the catalog what the
  globs over the chunks directory match.  Validation goes by the plan; the globs do not, and the
  rows are joined with the schemas that other globs match.  What is published is what has been
  validated just when the directory and the joins add nothing and leave nothing out.
-/
import RootLake.Lib.Count
import RootLake.Production.ChunkValidation
import Mathlib.Data.List.Dedup
import Mathlib.Data.List.MinMax
import Mathlib.Data.String.Basic

namespace RootLake.Production

open ExceptRules

/-! ### Staged tables -/

/-- A row of `root_files.parquet`: without the columns that the commit replaces, and with those
    that it takes over as they are in one. -/
structure StagedFile (Columns : Type) where
  fileId : String
  rootUri : String
  columnId : String
  totalEntries : UInt64
  columns : Columns
  deriving DecidableEq

/-- A row of `root_baskets.parquet`. -/
structure StagedBasket (Columns : Type) where
  fileId : String
  columnId : String
  columns : Columns
  deriving DecidableEq

/-- A row of `root_schemas.parquet`. -/
structure StagedSchema (Columns : Type) where
  schemaId : String
  columnId : String
  logicalPath : String
  columns : Columns
  deriving DecidableEq

/-- A row of `root_access_levels.parquet`. -/
structure StagedAccess (Columns : Type) where
  accessPlanId : String
  levelNo : Nat
  columns : Columns
  deriving DecidableEq

variable {FileColumns BasketColumns SchemaColumns AccessColumns Row : Type}

variable (FileColumns BasketColumns SchemaColumns AccessColumns) in
/-- The chunks directory: the names in it, the names in the `snapshots` directory of each, what
    validation reads of each, and the Parquet files. -/
structure ChunksDirectory where
  path : PurePath
  names : List String
  snapshots : String → List String
  chunk : String → ChunkDirectory
  chunk_path : ∀ name, (chunk name).path = path.join (PurePath.parse name)
  files : PurePath → Option (List (StagedFile FileColumns))
  schemas : PurePath → Option (List (StagedSchema SchemaColumns))
  access : PurePath → Option (List (StagedAccess AccessColumns))
  baskets : PurePath → Option (List (StagedBasket BasketColumns))

/-- The tables that `*/snapshots/*/part` matches. -/
def ChunksDirectory.matched
    (directory : ChunksDirectory FileColumns BasketColumns SchemaColumns AccessColumns)
    (part : String) (table : PurePath → Option (List Row)) : List (List Row) :=
  directory.names.flatMap fun name =>
    (directory.snapshots name).filterMap fun snapshot =>
      table (directory.path.join ⟨"", [name, "snapshots", snapshot, part]⟩)

/-- `read_parquet` -/
def readParquet (part : String) (tables : List (List Row)) : Except String (List Row) :=
  if tables.isEmpty then .error ("No files found that match the pattern: " ++ part)
  else .ok tables.flatten

/-- The table that the `current.json` of a chunk names. -/
def ChunkDirectory.named (chunk : ChunkDirectory) (key : String) : Option PurePath := do
  let current ← (chunk.current.bind Value.asRecord).toOption
  let tables ← ((current.lookup "tables").getD (.object [])).asRecord.toOption
  let value ← tables.lookup key
  let (path, _) ← (tablePath chunk value).toOption
  return path

/-- The rows of the tables that the chunks of the plan name. -/
def ChunksDirectory.namedRows
    (directory : ChunksDirectory FileColumns BasketColumns SchemaColumns AccessColumns)
    (plan : ChunkedPlan) (key : String) (table : PurePath → Option (List Row)) : List Row :=
  plan.expected.flatMap fun chunk =>
    (((directory.chunk chunk.chunkId).named key).bind table).getD []

/-! ### The lineage of files -/

/-- `SELECT DISTINCT file_id, root_uri` -/
def fileKeys (files : List (StagedFile FileColumns)) : List (String × String) :=
  (files.map fun file => (file.fileId, file.rootUri)).dedup

/-- `max(total_entries)` of a group. -/
def maxEntries (files : List (StagedFile FileColumns)) (key : String × String) : Nat :=
  ((files.filter fun file => (file.fileId, file.rootUri) = key).map
    fun file => file.totalEntries.toNat).foldr max 0

/-- `ORDER BY root_uri, file_id` -/
def Precedes (key other : String × String) : Prop :=
  key.2 < other.2 ∨ (key.2 = other.2 ∧ key.1 < other.1)

instance (key other : String × String) : Decidable (Precedes key other) :=
  inferInstanceAs (Decidable (_ ∨ _))

/-- The sum over the rows ahead. -/
def globalEventBase (files : List (StagedFile FileColumns)) (key : String × String) : Nat :=
  (((fileKeys files).filter fun other => Precedes other key).map (maxEntries files)).sum

def digit (c : Char) : Nat := c.toNat - '0'.toNat

/-- `regexp_extract(root_uri, '/(20[0-9]{2})/', 1)` at one place. -/
def yearAt : List Char → Option Nat
  | '/' :: '2' :: '0' :: tens :: ones :: '/' :: _ =>
      if tens.isDigit && ones.isDigit then some (2000 + 10 * digit tens + digit ones) else none
  | _ => none

/-- `regexp_extract(root_uri, '/(W[0-9]{2})/', 1)` at one place. -/
def periodAt : List Char → Option String
  | '/' :: 'W' :: tens :: ones :: '/' :: _ =>
      if tens.isDigit && ones.isDigit then some (String.ofList ['W', tens, ones]) else none
  | _ => none

/-- A row of `file_lineage`. -/
structure FileLineage where
  fileId : String
  rootUri : String
  totalEntries : Nat
  globalEventBase : UInt64
  year : Option Nat
  period : Option String
  deriving DecidableEq

def lineageOf (files : List (StagedFile FileColumns)) (key : String × String) : FileLineage where
  fileId := key.1
  rootUri := key.2
  totalEntries := maxEntries files key
  globalEventBase := UInt64.ofNat (globalEventBase files key)
  year := key.2.toList.tails.findSome? yearAt
  period := key.2.toList.tails.findSome? periodAt

/-- The view; a sum that is no `UBIGINT` is an error. -/
def fileLineage (files : List (StagedFile FileColumns)) : Except String (List FileLineage) :=
  if (fileKeys files).any fun key => decide (2 ^ 64 ≤ globalEventBase files key) then
    .error "Conversion Error: out of range for the destination type UINT64"
  else .ok ((fileKeys files).map (lineageOf files))

/-! ### The transaction -/

structure CommittedFile (Columns : Type) where
  datasetId : String
  snapshotId : String
  eventBase : UInt64
  row : StagedFile Columns
  logicalPath : String
  year : Option Nat
  period : Option String
  planFingerprint : String
  deriving DecidableEq

structure CommittedBasket (Columns : Type) where
  snapshotId : String
  eventBase : UInt64
  row : StagedBasket Columns
  logicalPath : String
  year : Option Nat
  period : Option String
  planFingerprint : String
  deriving DecidableEq

structure CommitMarker where
  snapshotId : String
  planFingerprint : String
  state : String
  chunkCount : Nat
  sourceFileCount : Nat
  deriving DecidableEq, Repr

variable (FileColumns BasketColumns SchemaColumns AccessColumns) in
structure IcebergTables where
  files : List (CommittedFile FileColumns)
  schemas : List (StagedSchema SchemaColumns × String)
  access : List (StagedAccess AccessColumns × String)
  baskets : List (CommittedBasket BasketColumns)
  commits : List CommitMarker

/-- The clock and the digest of the script that runs. -/
structure CommitRun where
  timeNs : String
  sha256 : String → String

section Commit

variable (plan : ChunkedPlan) (run : CommitRun)

def insertedFiles (files : List (StagedFile FileColumns))
    (schemas : List (StagedSchema SchemaColumns)) (lineage : List FileLineage) :
    List (CommittedFile FileColumns) :=
  files.flatMap fun file =>
    (lineage.filter fun l => l.fileId = file.fileId ∧ l.rootUri = file.rootUri).flatMap fun l =>
      (schemas.filter fun schema => schema.columnId = file.columnId).map fun schema =>
        { datasetId := ((run.sha256 plan.fingerprint).take 16).toString
          snapshotId := run.timeNs
          eventBase := l.globalEventBase
          row := file
          logicalPath := schema.logicalPath
          year := l.year
          period := l.period
          planFingerprint := plan.fingerprint }

def insertedBaskets (baskets : List (StagedBasket BasketColumns)) (keys : List (String × String))
    (schemas : List (StagedSchema SchemaColumns)) (lineage : List FileLineage) :
    List (CommittedBasket BasketColumns) :=
  baskets.flatMap fun basket =>
    (keys.filter fun key => key.1 = basket.fileId).flatMap fun key =>
      (lineage.filter fun l => l.fileId = key.1 ∧ l.rootUri = key.2).flatMap fun l =>
        (schemas.filter fun schema => schema.columnId = basket.columnId).map fun schema =>
          { snapshotId := run.timeNs
            eventBase := l.globalEventBase
            row := basket
            logicalPath := schema.logicalPath
            year := l.year
            period := l.period
            planFingerprint := plan.fingerprint }

variable [DecidableEq SchemaColumns] [DecidableEq AccessColumns]

/-- The statements of the transaction; one that fails leaves the tables as they were. -/
def commitTransaction
    (directory : ChunksDirectory FileColumns BasketColumns SchemaColumns AccessColumns)
    (tables : IcebergTables FileColumns BasketColumns SchemaColumns AccessColumns) :
    Except String (IcebergTables FileColumns BasketColumns SchemaColumns AccessColumns) :=
  if tables.commits.any fun marker =>
      marker.planFingerprint = plan.fingerprint ∧ marker.state = "COMMITTED" then
    .error ("plan already committed: " ++ plan.fingerprint)
  else do
    let files ← readParquet "root_files.parquet"
      (directory.matched "root_files.parquet" directory.files)
    let schemas ← readParquet "root_schemas.parquet"
      (directory.matched "root_schemas.parquet" directory.schemas)
    let access ← readParquet "root_access_levels.parquet"
      (directory.matched "root_access_levels.parquet" directory.access)
    let baskets ← readParquet "root_baskets.parquet"
      (directory.matched "root_baskets.parquet" directory.baskets)
    let lineage ← fileLineage files
    let stored := tables.files ++ insertedFiles plan run files schemas.dedup lineage
    if ((stored.filter fun file => file.snapshotId = run.timeNs).map
        fun file => file.row.fileId).dedup.length ≠ lineage.length then
      .error "Iceberg validation failed: source-file count mismatch"
    else
      .ok {
        files := stored
        schemas := tables.schemas ++ (schemas.dedup.filter fun schema =>
          !tables.schemas.any fun old =>
            old.1.schemaId = schema.schemaId ∧ old.1.columnId = schema.columnId).map
              fun schema => (schema, plan.fingerprint)
        access := tables.access ++ (access.dedup.filter fun level =>
          !tables.access.any fun old =>
            old.1.accessPlanId = level.accessPlanId ∧ old.1.levelNo = level.levelNo).map
              fun level => (level, plan.fingerprint)
        baskets := tables.baskets ++
          insertedBaskets plan run baskets (fileKeys files) schemas.dedup lineage
        commits := tables.commits ++ [{
          snapshotId := run.timeNs
          planFingerprint := plan.fingerprint
          state := "COMMITTED"
          chunkCount := plan.chunks.length
          sourceFileCount := lineage.length }] }

/-- The script. -/
def commitIceberg (dictionary : Option String)
    (directory : ChunksDirectory FileColumns BasketColumns SchemaColumns AccessColumns)
    (tables : IcebergTables FileColumns BasketColumns SchemaColumns AccessColumns) :
    Except String (IcebergTables FileColumns BasketColumns SchemaColumns AccessColumns) := do
  let valid ← validateChunks plan dictionary directory.chunk
  if !valid then .error "validate_chunks.py exit code 1"
  -- a valid report has a schema fingerprint for each chunk
  else if plan.chunks.isEmpty then .error "validated schema fingerprints are missing"
  else commitTransaction plan run directory tables

end Commit

/-! ### What is published -/

section Published

variable (directory : ChunksDirectory FileColumns BasketColumns SchemaColumns AccessColumns)

def ChunksDirectory.stagedFiles : List (StagedFile FileColumns) :=
  (directory.matched "root_files.parquet" directory.files).flatten

def ChunksDirectory.stagedBaskets : List (StagedBasket BasketColumns) :=
  (directory.matched "root_baskets.parquet" directory.baskets).flatten

def ChunksDirectory.stagedSchemas [DecidableEq SchemaColumns] :
    List (StagedSchema SchemaColumns) :=
  (directory.matched "root_schemas.parquet" directory.schemas).flatten.dedup

/-- How many different schema rows the globs match for a column. -/
def ChunksDirectory.schemaCount [DecidableEq SchemaColumns] (columnId : String) : Nat :=
  (directory.stagedSchemas.filter fun schema => schema.columnId = columnId).length

/-- How many URIs the globs match for a file. -/
def ChunksDirectory.uriCount (fileId : String) : Nat :=
  ((fileKeys directory.stagedFiles).filter fun key => key.1 = fileId).length

/-- The rows that are inserted are those that the chunks of the plan name, each once, under the
    new snapshot, and no two entries of it have the same key. -/
structure PublishesValidated (plan : ChunkedPlan) (run : CommitRun)
    (files : List (CommittedFile FileColumns)) (baskets : List (CommittedBasket BasketColumns)) :
    Prop where
  files_rows : (files.map (·.row)).Perm (directory.namedRows plan "files" directory.files)
  baskets_rows : (baskets.map (·.row)).Perm (directory.namedRows plan "baskets" directory.baskets)
  snapshot : (∀ file ∈ files, file.snapshotId = run.timeNs ∧
      file.planFingerprint = plan.fingerprint) ∧
    ∀ basket ∈ baskets, basket.snapshotId = run.timeNs ∧ basket.planFingerprint = plan.fingerprint
  keys : ∀ file ∈ files, ∀ other ∈ files,
    ∀ entry < file.row.totalEntries.toNat, ∀ same < other.row.totalEntries.toNat,
      file.eventBase.toNat + entry = other.eventBase.toNat + same →
        file.row.rootUri = other.row.rootUri ∧ entry = same

/-- The globs match each row as often as the chunks of the plan name it, counted once for each of
    the rows that it is joined with. -/
structure StagedAsNamed [DecidableEq FileColumns] [DecidableEq BasketColumns]
    [DecidableEq SchemaColumns] (plan : ChunkedPlan) : Prop where
  files : ∀ row, directory.stagedFiles.count row * directory.schemaCount row.columnId =
    (directory.namedRows plan "files" directory.files).count row
  baskets : ∀ row, directory.stagedBaskets.count row *
      (directory.uriCount row.fileId * directory.schemaCount row.columnId) =
    (directory.namedRows plan "baskets" directory.baskets).count row

end Published

/-! ### Joins -/

section Joins

variable {plan : ChunkedPlan} {run : CommitRun} {files : List (StagedFile FileColumns)}
  {lineage : List FileLineage} {schemas : List (StagedSchema SchemaColumns)}

theorem fileLineage_ok_iff : fileLineage files = .ok lineage ↔
    (∀ key ∈ fileKeys files, globalEventBase files key < 2 ^ 64) ∧
      lineage = (fileKeys files).map (lineageOf files) := by
  have hany : ((fileKeys files).any fun key => decide (2 ^ 64 ≤ globalEventBase files key)) =
      false ↔ ∀ key ∈ fileKeys files, globalEventBase files key < 2 ^ 64 := by
    rw [List.any_eq_false]
    exact forall₂_congr fun key _ => by rw [decide_eq_true_eq, Nat.not_le]
  rw [fileLineage, ← hany]
  split
  · rename_i hlarge
    rw [hlarge]
    exact ⟨fun h => (nomatch h), fun h => (nomatch h.1)⟩
  · rename_i hfits
    exact ⟨fun h => ⟨eq_false_of_ne_true hfits, (Except.ok.inj h).symm⟩, fun h => by rw [h.2]⟩

theorem mem_fileKeys {file : StagedFile FileColumns} (h : file ∈ files) :
    (file.fileId, file.rootUri) ∈ fileKeys files :=
  List.mem_dedup.mpr (List.mem_map.mpr ⟨file, h, rfl⟩)

/-- One row of the lineage for each file. -/
theorem filter_lineage {key : String × String} (hkey : key ∈ fileKeys files) :
    (((fileKeys files).map (lineageOf files)).filter fun l =>
      l.fileId = key.1 ∧ l.rootUri = key.2) = [lineageOf files key] := by
  have hsame : ((fun l : FileLineage => decide (l.fileId = key.1 ∧ l.rootUri = key.2)) ∘
      lineageOf files) = fun other => decide (other = key) := by
    funext other
    exact decide_eq_decide.mpr Prod.ext_iff.symm
  have hone : (fileKeys files).count key = 1 :=
    List.count_eq_one_of_mem (List.nodup_dedup _) hkey
  rw [List.filter_map, hsame, List.filter_eq, hone]
  rfl

/-- Each file comes once for every schema of its column. -/
theorem insertedFiles_row :
    (insertedFiles plan run files schemas ((fileKeys files).map (lineageOf files))).map (·.row) =
      files.flatMap fun file => List.replicate
        (schemas.filter fun schema => schema.columnId = file.columnId).length file := by
  rw [insertedFiles, List.map_flatMap]
  refine List.flatMap_congr fun file hfile => ?_
  rw [filter_lineage (mem_fileKeys hfile), List.flatMap_singleton, List.map_map]
  exact List.map_const'

/-- Each basket comes once for every URI of its file and every schema of its column. -/
theorem insertedBaskets_row {baskets : List (StagedBasket BasketColumns)} :
    (insertedBaskets plan run baskets (fileKeys files) schemas
        ((fileKeys files).map (lineageOf files))).map (·.row) =
      baskets.flatMap fun basket => List.replicate
        (((fileKeys files).filter fun key => key.1 = basket.fileId).length *
          (schemas.filter fun schema => schema.columnId = basket.columnId).length) basket := by
  rw [insertedBaskets, List.map_flatMap]
  refine List.flatMap_congr fun basket _ => ?_
  rw [List.map_flatMap, ← Count.flatMap_replicate_const]
  refine List.flatMap_congr fun key hkey => ?_
  rw [filter_lineage (List.mem_of_mem_filter hkey), List.flatMap_singleton, List.map_map]
  exact List.map_const'

end Joins

/-! ### Keys of entries -/

section Keys

variable {files : List (StagedFile FileColumns)} {key other next : String × String}

theorem Precedes.trans (h : Precedes key other) (hnext : Precedes other next) :
    Precedes key next := by
  rcases h with huri | ⟨huri, hid⟩
  · rcases hnext with hlater | ⟨hsame, _⟩
    · exact Or.inl (lt_trans huri hlater)
    · exact Or.inl (hsame ▸ huri)
  · rcases hnext with hlater | ⟨hsame, hlater⟩
    · exact Or.inl (huri ▸ hlater)
    · exact Or.inr ⟨huri.trans hsame, lt_trans hid hlater⟩

theorem Precedes.irrefl : ¬ Precedes key key := by
  rintro (huri | ⟨_, hid⟩)
  · exact lt_irrefl _ huri
  · exact lt_irrefl _ hid

theorem precedes_or (h : key ≠ other) : Precedes key other ∨ Precedes other key := by
  rcases lt_trichotomy key.2 other.2 with huri | huri | huri
  · exact Or.inl (Or.inl huri)
  · rcases lt_trichotomy key.1 other.1 with hid | hid | hid
    · exact Or.inl (Or.inr ⟨huri, hid⟩)
    · exact absurd (Prod.ext hid huri) h
    · exact Or.inr (Or.inr ⟨huri.symm, hid⟩)
  · exact Or.inr (Or.inl huri)

/-- The entries of a file end where those of a later file begin, or before. -/
theorem globalEventBase_add_le (hkey : key ∈ fileKeys files) (h : Precedes key other) :
    globalEventBase files key + maxEntries files key ≤ globalEventBase files other := by
  refine Count.sum_filter_add_le (maxEntries files) hkey (fun before _ hbefore => ?_) ?_ ?_
  · exact decide_eq_true ((of_decide_eq_true hbefore).trans h)
  · exact fun hself => Precedes.irrefl (of_decide_eq_true hself)
  · exact decide_eq_true h

theorem totalEntries_le_maxEntries {file : StagedFile FileColumns} (h : file ∈ files) :
    file.totalEntries.toNat ≤ maxEntries files (file.fileId, file.rootUri) := by
  have hmem : file ∈ files.filter fun other =>
      (other.fileId, other.rootUri) = (file.fileId, file.rootUri) :=
    List.mem_filter.mpr ⟨h, decide_eq_true rfl⟩
  exact List.le_max_of_le' 0 (List.mem_map_of_mem hmem) (Nat.le_refl _)

/-- Two entries of the files have the same key only if they are one. -/
theorem key_inj {file same : StagedFile FileColumns} (hfile : file ∈ files) (hsame : same ∈ files)
    {entry number : Nat} (hentry : entry < file.totalEntries.toNat)
    (hnumber : number < same.totalEntries.toNat)
    (h : globalEventBase files (file.fileId, file.rootUri) + entry =
      globalEventBase files (same.fileId, same.rootUri) + number) :
    file.rootUri = same.rootUri ∧ entry = number := by
  have hmax := totalEntries_le_maxEntries hfile
  have hmaxSame := totalEntries_le_maxEntries hsame
  by_cases hkeys : (file.fileId, file.rootUri) = (same.fileId, same.rootUri)
  · rw [hkeys] at h
    exact ⟨(Prod.mk.inj hkeys).2, Nat.add_left_cancel h⟩
  · rcases precedes_or hkeys with hbefore | hbefore
    · have := globalEventBase_add_le (mem_fileKeys hfile) hbefore
      omega
    · have := globalEventBase_add_le (mem_fileKeys hsame) hbefore
      omega

end Keys

/-! ### The committed snapshot -/

section Snapshot

variable {plan : ChunkedPlan} {run : CommitRun}
  {directory : ChunksDirectory FileColumns BasketColumns SchemaColumns AccessColumns}
  {tables next : IcebergTables FileColumns BasketColumns SchemaColumns AccessColumns}

theorem readParquet_ok {part : String} {found : List (List Row)} {rows : List Row}
    (h : readParquet part found = .ok rows) : rows = found.flatten := by
  rw [readParquet] at h
  split at h
  · cases h
  · exact (Except.ok.inj h).symm

theorem mem_insertedFiles {files : List (StagedFile FileColumns)}
    {schemas : List (StagedSchema SchemaColumns)} {committed : CommittedFile FileColumns}
    (h : committed ∈
      insertedFiles plan run files schemas ((fileKeys files).map (lineageOf files))) :
    committed.row ∈ files ∧
      committed.eventBase = UInt64.ofNat
        (globalEventBase files (committed.row.fileId, committed.row.rootUri)) ∧
      committed.snapshotId = run.timeNs ∧ committed.planFingerprint = plan.fingerprint := by
  obtain ⟨file, hfile, h⟩ := List.mem_flatMap.mp h
  rw [filter_lineage (mem_fileKeys hfile), List.flatMap_singleton] at h
  obtain ⟨schema, _, rfl⟩ := List.mem_map.mp h
  exact ⟨hfile, rfl, rfl, rfl⟩

theorem mem_insertedBaskets {baskets : List (StagedBasket BasketColumns)}
    {keys : List (String × String)} {schemas : List (StagedSchema SchemaColumns)}
    {lineage : List FileLineage} {committed : CommittedBasket BasketColumns}
    (h : committed ∈ insertedBaskets plan run baskets keys schemas lineage) :
    committed.snapshotId = run.timeNs ∧ committed.planFingerprint = plan.fingerprint := by
  obtain ⟨basket, _, h⟩ := List.mem_flatMap.mp h
  obtain ⟨key, _, h⟩ := List.mem_flatMap.mp h
  obtain ⟨l, _, h⟩ := List.mem_flatMap.mp h
  obtain ⟨schema, _, rfl⟩ := List.mem_map.mp h
  exact ⟨rfl, rfl⟩

section Rows

variable [DecidableEq SchemaColumns]

variable (plan run directory) in
/-- The rows of the new snapshot. -/
def snapshotFiles : List (CommittedFile FileColumns) :=
  insertedFiles plan run directory.stagedFiles directory.stagedSchemas
    ((fileKeys directory.stagedFiles).map (lineageOf directory.stagedFiles))

variable (plan run directory) in
def snapshotBaskets : List (CommittedBasket BasketColumns) :=
  insertedBaskets plan run directory.stagedBaskets (fileKeys directory.stagedFiles)
    directory.stagedSchemas
    ((fileKeys directory.stagedFiles).map (lineageOf directory.stagedFiles))

variable (directory) in
/-- The bases of all files are `UBIGINT`s. -/
def BasesFit : Prop :=
  ∀ key ∈ fileKeys directory.stagedFiles, globalEventBase directory.stagedFiles key < 2 ^ 64

/-- No two entries of the new snapshot have the same key. -/
theorem snapshotFiles_key_inj (hfits : BasesFit directory)
    {file other : CommittedFile FileColumns} (hfile : file ∈ snapshotFiles plan run directory)
    (hother : other ∈ snapshotFiles plan run directory) {entry same : Nat}
    (hentry : entry < file.row.totalEntries.toNat) (hsame : same < other.row.totalEntries.toNat)
    (h : file.eventBase.toNat + entry = other.eventBase.toNat + same) :
    file.row.rootUri = other.row.rootUri ∧ entry = same := by
  obtain ⟨hrow, hbase, _⟩ := mem_insertedFiles hfile
  obtain ⟨hotherRow, hotherBase, _⟩ := mem_insertedFiles hother
  rw [hbase, hotherBase, UInt64.toNat_ofNat_of_lt' (hfits _ (mem_fileKeys hrow)),
    UInt64.toNat_ofNat_of_lt' (hfits _ (mem_fileKeys hotherRow))] at h
  exact key_inj hrow hotherRow hentry hsame h

theorem count_snapshotFiles [DecidableEq FileColumns] (row : StagedFile FileColumns) :
    ((snapshotFiles plan run directory).map (·.row)).count row =
      directory.stagedFiles.count row * directory.schemaCount row.columnId := by
  rw [snapshotFiles, insertedFiles_row]
  exact Count.count_flatMap_replicate (fun file => directory.schemaCount file.columnId) _ row

theorem count_snapshotBaskets [DecidableEq BasketColumns] (row : StagedBasket BasketColumns) :
    ((snapshotBaskets plan run directory).map (·.row)).count row =
      directory.stagedBaskets.count row *
        (directory.uriCount row.fileId * directory.schemaCount row.columnId) := by
  rw [snapshotBaskets, insertedBaskets_row]
  exact Count.count_flatMap_replicate (fun basket =>
    directory.uriCount basket.fileId * directory.schemaCount basket.columnId) _ row

variable [DecidableEq FileColumns] [DecidableEq BasketColumns]

theorem publishesValidated_iff (hfits : BasesFit directory) :
    PublishesValidated directory plan run (snapshotFiles plan run directory)
      (snapshotBaskets plan run directory) ↔ StagedAsNamed directory plan := by
  constructor
  · intro h
    refine ⟨fun row => ?_, fun row => ?_⟩
    · rw [← count_snapshotFiles, List.perm_iff_count.mp h.files_rows]
    · rw [← count_snapshotBaskets, List.perm_iff_count.mp h.baskets_rows]
  · intro h
    refine ⟨?_, ?_, ⟨?_, ?_⟩, ?_⟩
    · exact List.perm_iff_count.mpr fun row => by rw [count_snapshotFiles, h.files]
    · exact List.perm_iff_count.mpr fun row => by rw [count_snapshotBaskets, h.baskets]
    · exact fun file hfile => (mem_insertedFiles hfile).2.2
    · exact fun basket hbasket => mem_insertedBaskets hbasket
    · exact fun file hfile other hother entry hentry same hsame hkey =>
        snapshotFiles_key_inj hfits hfile hother hentry hsame hkey

end Rows

variable [DecidableEq SchemaColumns] [DecidableEq AccessColumns]

/-- What a transaction adds. -/
theorem commitTransaction_ok (h : commitTransaction plan run directory tables = .ok next) :
    BasesFit directory ∧
      next.files = tables.files ++ snapshotFiles plan run directory ∧
      next.baskets = tables.baskets ++ snapshotBaskets plan run directory := by
  rw [commitTransaction] at h
  split at h
  · cases h
  · obtain ⟨files, hfiles, h⟩ := bind_ok_iff.mp h
    obtain ⟨schemas, hschemas, h⟩ := bind_ok_iff.mp h
    obtain ⟨access, haccess, h⟩ := bind_ok_iff.mp h
    obtain ⟨baskets, hbaskets, h⟩ := bind_ok_iff.mp h
    obtain ⟨lineage, hlineage, h⟩ := bind_ok_iff.mp h
    obtain rfl := readParquet_ok hfiles
    obtain rfl := readParquet_ok hschemas
    obtain rfl := readParquet_ok hbaskets
    obtain ⟨hfits, rfl⟩ := fileLineage_ok_iff.mp hlineage
    dsimp only at h
    split at h
    · cases h
    · obtain rfl := Except.ok.inj h
      exact ⟨hfits, rfl, rfl⟩

theorem commitIceberg_ok {dictionary : Option String}
    (h : commitIceberg plan run dictionary directory tables = .ok next) :
    validateChunks plan dictionary directory.chunk = .ok true ∧
      commitTransaction plan run directory tables = .ok next := by
  obtain ⟨valid, hvalid, h⟩ := bind_ok_iff.mp h
  cases valid with
  | false => cases h
  | true =>
    rw [Bool.not_true, if_neg Bool.false_ne_true] at h
    split at h
    · cases h
    · exact ⟨hvalid, h⟩

variable [DecidableEq FileColumns] [DecidableEq BasketColumns]

/-- **A commit publishes the validated chunks** just when what the globs match, each row counted
    once for each row that it is joined with, is what the chunks of the plan name. -/
theorem commit_publishes_iff {dictionary : Option String}
    (h : commitIceberg plan run dictionary directory tables = .ok next) :
    (∃ files baskets, next.files = tables.files ++ files ∧
      next.baskets = tables.baskets ++ baskets ∧
      PublishesValidated directory plan run files baskets) ↔ StagedAsNamed directory plan := by
  obtain ⟨hfits, hfiles, hbaskets⟩ := commitTransaction_ok (commitIceberg_ok h).2
  have hiff : PublishesValidated directory plan run (snapshotFiles plan run directory)
      (snapshotBaskets plan run directory) ↔ StagedAsNamed directory plan :=
    publishesValidated_iff hfits
  rw [← hiff]
  constructor
  · rintro ⟨files, baskets, hnewFiles, hnewBaskets, hpublishes⟩
    obtain rfl := List.append_cancel_left (hfiles.symm.trans hnewFiles)
    obtain rfl := List.append_cancel_left (hbaskets.symm.trans hnewBaskets)
    exact hpublishes
  · exact fun hpublishes => ⟨_, _, hfiles, hbaskets, hpublishes⟩

end Snapshot

/-! ### A chunk of an earlier plan -/

def onlyFile : StagedFile Unit := ⟨"f", "/data/run1.root", "x", 5, ()⟩

def onlyBasket : StagedBasket Unit := ⟨"f", "x", ()⟩

def tableNames : List String :=
  ["root_access_levels.parquet", "root_baskets.parquet", "root_files.parquet",
    "root_schemas.parquet"]

/-- The complete directory of a chunk with one source. -/
def completeChunk (planFingerprint chunkId : String) : ChunkDirectory where
  path := ⟨"/", "chunks" :: (PurePath.parse chunkId).parts⟩
  success := some <| .ok <| .object [
    ("checksums", .object (tableNames.map fun name => ("snapshots/1/" ++ name, .string "h"))),
    ("chunk_id", .string chunkId), ("dictionary_fingerprint", .string "d"),
    ("format", .string "root4duckdb-chunk-success-v2"), ("manifest_fingerprint", .string "m"),
    ("plan_fingerprint", .string planFingerprint), ("schema_fingerprint", .string "x"),
    ("snapshot_id", .string "1"), ("source_ids", .array [.string "s"]),
    ("state", .string "succeeded")]
  current := .ok <| .object [
    ("chunk_id", .string chunkId), ("index_version", .number 12),
    ("manifest_fingerprint", .string "m"), ("schema_fingerprint", .string "x"),
    ("snapshot_id", .string "1"),
    ("tables", .object [
      ("access_levels", .string "snapshots/1/root_access_levels.parquet"),
      ("baskets", .string "snapshots/1/root_baskets.parquet"),
      ("files", .string "snapshots/1/root_files.parquet"),
      ("schemas", .string "snapshots/1/root_schemas.parquet")])]
  file := fun path =>
    if path.parts.getLast?.any (· ∈ tableNames) then some "h" else none

/-- The chunk of the plan, and what earlier plans have left. -/
def chunksBeside (leftovers : List String) : ChunksDirectory Unit Unit Unit Unit where
  path := ⟨"/", ["chunks"]⟩
  names := "c" :: leftovers
  snapshots := fun _ => ["1"]
  chunk := fun name => completeChunk (if name = "c" then "p" else "q") name
  chunk_path := fun _ => rfl
  files := fun path =>
    if path.parts.getLast? = some "root_files.parquet" then some [onlyFile] else none
  schemas := fun path =>
    if path.parts.getLast? = some "root_schemas.parquet" then some [⟨"t", "x", "/Event/x", ()⟩]
    else none
  access := fun path =>
    if path.parts.getLast? = some "root_access_levels.parquet" then some [⟨"a", 0, ()⟩]
    else none
  baskets := fun path =>
    if path.parts.getLast? = some "root_baskets.parquet" then some [onlyBasket] else none

def emptyTables : IcebergTables Unit Unit Unit Unit := ⟨[], [], [], [], []⟩

def commitRun : CommitRun := ⟨"7", fun text => text⟩

/-- The chunk alone is staged as it is named. -/
theorem staged_alone : StagedAsNamed (chunksBeside []) onePlan := by
  have hfiles : (chunksBeside []).stagedFiles = [onlyFile] := rfl
  have hnamed : (chunksBeside []).namedRows onePlan "files" (chunksBeside []).files =
      [onlyFile] := by decide +kernel
  have hbaskets : (chunksBeside []).stagedBaskets = [onlyBasket] := rfl
  have hnamedBaskets : (chunksBeside []).namedRows onePlan "baskets" (chunksBeside []).baskets =
      [onlyBasket] := by decide +kernel
  refine ⟨fun row => ?_, fun row => ?_⟩
  · rw [hfiles, hnamed]
    by_cases hrow : row = onlyFile
    · subst hrow
      decide +kernel
    · rw [List.count_eq_zero_of_not_mem (mt List.mem_singleton.mp hrow), Nat.zero_mul]
  · rw [hbaskets, hnamedBaskets]
    by_cases hrow : row = onlyBasket
    · subst hrow
      decide +kernel
    · rw [List.count_eq_zero_of_not_mem (mt List.mem_singleton.mp hrow), Nat.zero_mul]

theorem commit_publishes_alone : ∃ next,
    commitIceberg onePlan commitRun (some "d") (chunksBeside []) emptyTables = .ok next ∧
      ∃ files baskets, next.files = emptyTables.files ++ files ∧
        next.baskets = emptyTables.baskets ++ baskets ∧
        PublishesValidated (chunksBeside []) onePlan commitRun files baskets := by
  obtain ⟨next, hnext⟩ := exists_ok_of_isOk (x := commitIceberg onePlan commitRun (some "d")
    (chunksBeside []) emptyTables) (by decide +kernel)
  exact ⟨next, hnext, (commit_publishes_iff hnext).mpr staged_alone⟩

/-- What a leftover over the same source holds is published too. -/
theorem leftover_published : ¬ ∀ next,
    commitIceberg onePlan commitRun (some "d") (chunksBeside ["old"]) emptyTables = .ok next →
      ∃ files baskets, next.files = emptyTables.files ++ files ∧
        next.baskets = emptyTables.baskets ++ baskets ∧
        PublishesValidated (chunksBeside ["old"]) onePlan commitRun files baskets := by
  intro h
  obtain ⟨next, hnext⟩ := exists_ok_of_isOk (x := commitIceberg onePlan commitRun (some "d")
    (chunksBeside ["old"]) emptyTables) (by decide +kernel)
  obtain ⟨hfits, hfiles, hbaskets⟩ := commitTransaction_ok (commitIceberg_ok hnext).2
  obtain ⟨files, baskets, hnewFiles, hnewBaskets, hpublishes⟩ := h next hnext
  obtain rfl := List.append_cancel_left (hfiles.symm.trans hnewFiles)
  obtain rfl := List.append_cancel_left (hbaskets.symm.trans hnewBaskets)
  have hstaged := ((publishesValidated_iff hfits).mp hpublishes).files onlyFile
  exact absurd hstaged (by decide +kernel)

end RootLake.Production

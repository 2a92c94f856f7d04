/-
  RootLake/Index/BuildDirectory.lean
  ==================================
  **The directory of an index build.**

  A build works in a staging directory: a request, the segments its workers commit and the four
  tables that are compacted from them.  Everything in it survives a crash.  What a later run
  finds in it is decided by the checks below: a segment is restored when its receipt fits the
  new plans and the local files, and a table that exists is never written again.
-/
import RootLake.Index.Checkpoint
import RootLake.Index.FilePlans
import Mathlib.Data.List.Dedup

namespace RootLake.Index

/-- `catalog_mode`. -/
inductive CatalogMode
  | localFiles
  | external
  | tables
  | sqlite
  deriving DecidableEq, Repr

/-- The modes that publish with `CommitParquetSnapshot`. -/
def CatalogMode.commitsSnapshot : CatalogMode → Bool
  | .localFiles | .external => true
  | .tables | .sqlite => false

/-- What `IndexBuildIdentity` binds. The resolved input files are bound by their manifest and by
    the dataset; `settings` stands for the rest. -/
structure BuildRequest where
  datasetId : String
  files : List String
  /-- `RootInputResolver` returns no file twice. -/
  files_nodup : files.Nodup
  catalogMode : CatalogMode
  allowPartial : Bool
  settings : String
  deriving DecidableEq

/-- The tables in the directory itself, as far as they exist. -/
structure CompactedTables where
  files : Option (List RootFileMetadataRow) := none
  schemas : Option (List RootSchemaMetadataRow) := none
  access : Option (List RootAccessMetadataRow) := none
  baskets : Option (List RootBasketMetadataRow) := none
  deriving DecidableEq, Repr

/-- No table has been compacted. -/
def CompactedTables.Absent (tables : CompactedTables) : Prop :=
  tables = {}

/-- All tables have been compacted. -/
structure CompactedTables.Complete (tables : CompactedTables) : Prop where
  files : tables.files.isSome
  schemas : tables.schemas.isSome
  access : tables.access.isSome
  baskets : tables.baskets.isSome

instance (tables : CompactedTables) : Decidable tables.Absent :=
  inferInstanceAs (Decidable (tables = {}))

instance (tables : CompactedTables) : Decidable tables.Complete :=
  decidable_of_iff (tables.files.isSome ∧ tables.schemas.isSome ∧ tables.access.isSome ∧
      tables.baskets.isSome)
    ⟨fun ⟨hfiles, hschemas, haccess, hbaskets⟩ => ⟨hfiles, hschemas, haccess, hbaskets⟩,
      fun h => ⟨h.files, h.schemas, h.access, h.baskets⟩⟩

/-- A staging directory, a preserved one or a snapshot. -/
structure BuildDirectory where
  /-- The identity and the snapshot of `request.json`, once it is written. -/
  request : Option (BuildRequest × Nat) := none
  /-- One more than the largest worker directory in `parts`. -/
  nextWorker : Nat := 0
  segments : List SegmentDirectory := []
  tables : CompactedTables := {}
  /-- A publication has begun to remove the contents. No code reads this. -/
  removing : Bool := false
  deriving Inhabited

/-! ### Segments and tables -/

/-- The committed segments: those the `segment-*` globs match. -/
def committed (segments : List SegmentDirectory) : List SegmentDirectory :=
  segments.filter fun segment => !segment.rejected

/-- The files recorded by the committed segments. -/
def committedFiles (segments : List SegmentDirectory) : List FileCheckpoint :=
  (committed segments).flatMap SegmentDirectory.checkpoints

/-- What the four queries of `CompactRootIndexParquet` select. -/
def partTables (segments : List SegmentDirectory) : RootFileIndexMetadata :=
  RootFileIndexMetadata.distinct
    { files := (committed segments).flatMap fun segment => segment.tables.files
      schemas := (committed segments).flatMap fun segment => segment.tables.schemas
      access := (committed segments).flatMap fun segment => segment.tables.access
      baskets := (committed segments).flatMap fun segment => segment.tables.baskets }

/-- The loop of `CompactRootIndexParquet`, for the table with the given number. A table that
    exists is left as it is. -/
def compactTable (tables : CompactedTables) (parts : RootFileIndexMetadata) : Nat → CompactedTables
  | 0 => { tables with files := tables.files.or (some parts.files) }
  | 1 => { tables with schemas := tables.schemas.or (some parts.schemas) }
  | 2 => { tables with access := tables.access.or (some parts.access) }
  | _ => { tables with baskets := tables.baskets.or (some parts.baskets) }

/-- `fs::exists(final)` in the loop. -/
def tableExists (tables : CompactedTables) : Nat → Bool
  | 0 => tables.files.isSome
  | 1 => tables.schemas.isSome
  | 2 => tables.access.isSome
  | _ => tables.baskets.isSome

/-! ### Receipts -/

/-- What `stat` says of the input files. -/
structure LocalFiles where
  size : String → Nat
  mtimeNs : String → Int

/-- A run as far as `RestoreCheckpoints` reads it. -/
structure RestoreContext where
  datasetId : String
  snapshotId : String
  plans : List RootIndexFilePlan
  okPaths : List String
  localFiles : LocalFiles

namespace RestoreContext

variable (context : RestoreContext)

/-- `by_path`. -/
def plan? (path : String) : Option RootIndexFilePlan :=
  context.plans.find? fun plan => plan.path == path

/-- The checks on one entry of `checkpoint.json`. -/
def acceptsReceipt (row : FileReceipt) : Bool :=
  match context.plan? row.filePath with
  | none => false
  | some plan =>
      plan.error == "" && !context.okPaths.contains row.filePath &&
      row.snapshotId == context.snapshotId && row.eventBase == plan.eventBase.toNat &&
      row.entries == plan.entries.toNat &&
      row.fileId == fileId row.filePath row.fileSize row.mtimeNs &&
      row.fileSize == context.localFiles.size row.filePath &&
      row.mtimeNs == context.localFiles.mtimeNs row.filePath

/-- The check of one distinct row against the recovered files. -/
def acceptsRow (recovered : List FileReceipt) (row : RootFileMetadataRow) : Bool :=
  match recovered.find? fun item => item.fileId == row.fileId && item.filePath == row.rootUri with
  | none => false
  | some item =>
      ((context.plan? item.filePath).map fun plan => plan.eventBase.toNat) == some row.eventBase &&
      row.totalEntries == item.entries && row.snapshotId == context.snapshotId &&
      row.datasetId == context.datasetId

/-- A segment is restored; `intact` is what reading its receipt, comparing its checksums and
    opening its tables gives. -/
def accepts (segment : SegmentDirectory) (intact : Bool) : Bool :=
  let rows := segment.tables.files
  intact && !segment.receipt.isEmpty && segment.receipt.all context.acceptsReceipt &&
    rows.all (context.acceptsRow segment.receipt) &&
    (rows.map RootFileMetadataRow.fileId).dedup.length == segment.receipt.length

end RestoreContext

/-! ### What a restored segment says -/

section

variable {context : RestoreContext} {segment : SegmentDirectory} {intact : Bool}

theorem RestoreContext.receipt_of_accepts (h : context.accepts segment intact = true)
    {checkpoint : FileCheckpoint} (hmem : checkpoint ∈ segment.checkpoints) :
    context.acceptsReceipt checkpoint.receipt = true := by
  simp only [accepts, Bool.and_eq_true, List.all_eq_true] at h
  exact h.1.1.2 _ (List.mem_map_of_mem hmem)

/-- A restored file has the plan of its path, inspected without error and not restored before,
    with the base and the entries of the plan. -/
theorem RestoreContext.plan_of_accepts (h : context.accepts segment intact = true)
    {checkpoint : FileCheckpoint} (hmem : checkpoint ∈ segment.checkpoints) :
    ∃ plan ∈ context.plans, plan.path = checkpoint.filePath ∧ plan.error = "" ∧
      checkpoint.filePath ∉ context.okPaths ∧ checkpoint.eventBase = plan.eventBase.toNat ∧
      checkpoint.source.totalEntries = plan.entries.toNat := by
  have hreceipt := receipt_of_accepts h hmem
  rw [acceptsReceipt] at hreceipt
  split at hreceipt
  · cases hreceipt
  · rename_i plan hplan
    simp only [Bool.and_eq_true, beq_iff_eq, Bool.not_eq_true', List.contains_eq_mem,
      decide_eq_false_iff_not] at hreceipt
    obtain ⟨⟨⟨⟨⟨⟨⟨herror, hok⟩, -⟩, hbase⟩, hentries⟩, -⟩, -⟩, -⟩ := hreceipt
    have hpath := List.find?_some hplan
    rw [beq_iff_eq] at hpath
    exact ⟨plan, List.mem_of_find?_eq_some hplan, hpath, herror, hok, hbase, hentries⟩

end

/-! ### Rows of the compacted tables -/

theorem committed_append (left right : List SegmentDirectory) :
    committed (left ++ right) = committed left ++ committed right :=
  List.filter_append left right

theorem committedFiles_append (left right : List SegmentDirectory) :
    committedFiles (left ++ right) = committedFiles left ++ committedFiles right := by
  rw [committedFiles, committed_append, List.flatMap_append, committedFiles, committedFiles]

theorem committedFiles_singleton (segment : SegmentDirectory) :
    committedFiles [segment] = if segment.rejected then [] else segment.checkpoints := by
  cases h : segment.rejected <;> simp [committedFiles, committed, h]

theorem committedFiles_rejected (segments : List SegmentDirectory) :
    committedFiles (segments.filter fun segment => segment.rejected) = [] := by
  rw [committedFiles, committed, List.filter_filter]
  simp

theorem committed_perm {left right : List SegmentDirectory} (h : left.Perm right) :
    (committed left).Perm (committed right) :=
  h.filter _

theorem committedFiles_perm {left right : List SegmentDirectory} (h : left.Perm right) :
    (committedFiles left).Perm (committedFiles right) :=
  (committed_perm h).flatMap_right _

@[simp] theorem partTables_files (segments : List SegmentDirectory) :
    (partTables segments).files = (tablesOf (committedFiles segments)).files := by
  simp only [partTables, RootFileIndexMetadata.distinct, tablesOf, committedFiles,
    SegmentDirectory.tables, List.flatMap_assoc]

@[simp] theorem partTables_baskets (segments : List SegmentDirectory) :
    (partTables segments).baskets = (tablesOf (committedFiles segments)).baskets := by
  simp only [partTables, RootFileIndexMetadata.distinct, tablesOf, committedFiles,
    SegmentDirectory.tables, List.flatMap_assoc]

theorem mem_partTables_schemas {segments : List SegmentDirectory} {row : RootSchemaMetadataRow} :
    row ∈ (partTables segments).schemas ↔ row ∈ (tablesOf (committedFiles segments)).schemas := by
  simp [partTables, RootFileIndexMetadata.distinct, tablesOf, committedFiles,
    SegmentDirectory.tables, List.mem_dedup]
  grind

theorem mem_partTables_access {segments : List SegmentDirectory} {row : RootAccessMetadataRow} :
    row ∈ (partTables segments).access ↔ row ∈ (tablesOf (committedFiles segments)).access := by
  simp [partTables, RootFileIndexMetadata.distinct, tablesOf, committedFiles,
    SegmentDirectory.tables, List.mem_dedup]
  grind

end RootLake.Index

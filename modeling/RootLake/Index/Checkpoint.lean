/-
  RootLake/Index/Checkpoint.lean
  ==============================
  **What the index build records about one ROOT file.**

  `Build` turns one opened file into rows of four tables: one files row and some baskets rows
  for each logical path, and the schema rows of the columns its worker has not written yet.
  A worker appends these rows to its buffers and flushes the buffers into a segment directory,
  which holds the four tables and the receipt of the files they come from.

  The columns of statistics are left out, as are those of the schema rows that are texts of the
  levels.
-/
import RootLake.Lib.Bytes
import RootLake.Reader.PathLevel

namespace RootLake.Index

open RootLake.Bytes

/-! ### Identifiers -/

def fnv1a64 (bytes : List UInt8) (seed : UInt64) : UInt64 :=
  bytes.foldl (fun hash byte => (hash ^^^ byte.toUInt64) * 1099511628211) seed

/-- The seed of a hash that continues no other. -/
def fnvSeed : UInt64 := 14695981039346656037

def fnvText (text : String) (seed : UInt64) : UInt64 :=
  fnv1a64 text.toUTF8.toList seed

/-- `FNV1a64(&value, sizeof(value), seed)` for an integer of `width` bytes. -/
def fnvNumber (width : Nat) (value : Int) (seed : UInt64) : UInt64 :=
  fnv1a64 (toLittleEndian width (value % 256 ^ width).toNat) seed

/-- Sixteen hexadecimal digits. -/
def hex64 (value : UInt64) : String :=
  String.ofList ((List.range 16).reverse.map fun digit => (value.toNat / 16 ^ digit % 16).digitChar)

def fileId (uri : String) (size : Nat) (mtime : Int) : String :=
  hex64 (fnvNumber 8 mtime (fnvNumber 8 size (fnvText uri fnvSeed)))

def columnId (schemaId logicalPath : String) : String :=
  hex64 (fnvText logicalPath (fnvText schemaId fnvSeed))

def accessPlanId (schemaId logicalPath : String) : String :=
  hex64 (fnvText logicalPath (fnvText schemaId fnvSeed) ^^^ 0x9F6ABC31)

/-- The flag bits `SchemaFingerprint` hashes. -/
def levelFlags (level : PathLevel) : Nat :=
  (if level.isPointer then 1 else 0) + (if level.isContainer then 2 else 0) +
    (if level.isPrimitive then 4 else 0) + (if level.isString then 8 else 0) +
    (if level.fixedArray.isSome then 16 else 0)

def fingerprintLevel (hash : UInt64) (level : PathLevel) : UInt64 :=
  let dimensions := (level.fixedArray.map fun array => array.dimensions).getD []
  let length := (level.fixedArray.map fun array => array.length).getD 0
  let hash := fnvText level.type (fnvText level.name hash)
  let hash := fnvNumber 1 (levelFlags level) (fnvNumber 8 level.offsetInParent hash)
  dimensions.foldl (fun hash dimension => fnvNumber 4 dimension hash) (fnvNumber 8 length hash)

def schemaFingerprint (rootClass : String) (levels : List PathLevel) : String :=
  hex64 (levels.foldl fingerprintLevel (fnvText rootClass fnvSeed))

/-! ### Rows -/

structure RootSchemaMetadataRow where
  schemaId : String
  columnId : String
  logicalPath : String
  rootClass : String
  rootType : String
  accessPlanId : String
  containerDepth : Nat
  deriving DecidableEq, Repr

structure RootAccessMetadataRow where
  accessPlanId : String
  levelNo : Nat
  fieldName : String
  rootType : String
  offsetInParent : Int
  isPointer : Bool
  isContainer : Bool
  isPrimitive : Bool
  isString : Bool
  isFixedArray : Bool
  arrayLength : Nat
  arrayDimensions : List Nat
  elementSize : Nat
  deriving DecidableEq, Repr

structure RootFileMetadataRow where
  datasetId : String
  snapshotId : String
  fileId : String
  rootUri : String
  schemaId : String
  columnId : String
  eventBase : Nat
  totalEntries : Nat
  fileSize : Nat
  mtimeNs : Int
  basketCount : Nat
  deriving DecidableEq, Repr

structure RootBasketMetadataRow where
  snapshotId : String
  fileId : String
  columnId : String
  basketId : Nat
  entryBegin : Nat
  entryEnd : Nat
  eventBase : Nat
  valueCount : Nat
  deriving DecidableEq, Repr

structure RootFileIndexMetadata where
  files : List RootFileMetadataRow := []
  schemas : List RootSchemaMetadataRow := []
  access : List RootAccessMetadataRow := []
  baskets : List RootBasketMetadataRow := []
  deriving DecidableEq, Repr

/-! ### One file -/

/-- A basket of a path, as `Build` has it when the entries have been read. -/
structure PathBasket where
  basketId : Nat
  entryBegin : Nat
  entryEnd : Nat
  valueCount : Nat

/-- A logical path of one file: its resolved levels and its baskets. -/
structure IndexedPathPlan where
  logicalPath : String
  rootClass : String
  levels : List PathLevel
  baskets : List PathBasket

namespace IndexedPathPlan

def schemaId (path : IndexedPathPlan) : String :=
  schemaFingerprint path.rootClass path.levels

def columnId (path : IndexedPathPlan) : String :=
  Index.columnId path.schemaId path.logicalPath

def accessPlanId (path : IndexedPathPlan) : String :=
  Index.accessPlanId path.schemaId path.logicalPath

def schemaRow (path : IndexedPathPlan) : RootSchemaMetadataRow where
  schemaId := path.schemaId
  columnId := path.columnId
  logicalPath := path.logicalPath
  rootClass := path.rootClass
  rootType := (path.levels.getLast?.map fun level => level.type).getD ""
  accessPlanId := path.accessPlanId
  containerDepth := indexDepth path.levels

/-- The access row of the level with number `levelNo`. -/
def accessRow (accessPlanId : String) (level : PathLevel) (levelNo : Nat) :
    RootAccessMetadataRow where
  accessPlanId := accessPlanId
  levelNo := levelNo
  fieldName := level.name
  rootType := level.type
  offsetInParent := level.offsetInParent
  isPointer := level.isPointer
  isContainer := level.isContainer
  isPrimitive := level.isPrimitive
  isString := level.isString
  isFixedArray := level.fixedArray.isSome
  arrayLength := (level.fixedArray.map fun array => array.length).getD 0
  arrayDimensions := (level.fixedArray.map fun array => array.dimensions).getD []
  elementSize := level.elementSize

def accessRows (path : IndexedPathPlan) : List RootAccessMetadataRow :=
  path.levels.zipIdx.map fun level => accessRow path.accessPlanId level.1 level.2

end IndexedPathPlan

/-- What `Build` reads of one ROOT file. -/
structure SourceFile where
  totalEntries : Nat
  fileSize : Nat
  mtimeNs : Int
  paths : List IndexedPathPlan

/-- One file handed to `Build` and `Append`: the identity of the build, the plan's row for the
    file, its contents, and the columns its worker has written schema rows for. -/
structure FileCheckpoint where
  datasetId : String
  snapshotId : String
  filePath : String
  eventBase : Nat
  source : SourceFile
  writtenColumns : List String

namespace FileCheckpoint

variable (checkpoint : FileCheckpoint)

def fileId : String :=
  Index.fileId checkpoint.filePath checkpoint.source.fileSize checkpoint.source.mtimeNs

def fileRow (path : IndexedPathPlan) : RootFileMetadataRow where
  datasetId := checkpoint.datasetId
  snapshotId := checkpoint.snapshotId
  fileId := checkpoint.fileId
  rootUri := checkpoint.filePath
  schemaId := path.schemaId
  columnId := path.columnId
  eventBase := checkpoint.eventBase
  totalEntries := checkpoint.source.totalEntries
  fileSize := checkpoint.source.fileSize
  mtimeNs := checkpoint.source.mtimeNs
  basketCount := path.baskets.length

def basketRow (path : IndexedPathPlan) (basket : PathBasket) : RootBasketMetadataRow where
  snapshotId := checkpoint.snapshotId
  fileId := checkpoint.fileId
  columnId := path.columnId
  basketId := basket.basketId
  entryBegin := basket.entryBegin
  entryEnd := basket.entryEnd
  eventBase := checkpoint.eventBase
  valueCount := basket.valueCount

/-- The body of the loop of `Build` over the paths. The columns written so far travel with the
    rows. -/
def writePath (acc : RootFileIndexMetadata × List String) (path : IndexedPathPlan) :
    RootFileIndexMetadata × List String :=
  let fresh := !acc.2.contains path.columnId
  ({ files := acc.1.files ++ [checkpoint.fileRow path]
     schemas := acc.1.schemas ++ (if fresh then [path.schemaRow] else [])
     access := acc.1.access ++ (if fresh then path.accessRows else [])
     baskets := acc.1.baskets ++ path.baskets.map (checkpoint.basketRow path) },
   if fresh then acc.2 ++ [path.columnId] else acc.2)

def build : RootFileIndexMetadata × List String :=
  checkpoint.source.paths.foldl checkpoint.writePath ({}, checkpoint.writtenColumns)

def metadata : RootFileIndexMetadata := checkpoint.build.1

/-- `next_written_columns` when `Build` returns. -/
def nextWrittenColumns : List String := checkpoint.build.2

end FileCheckpoint

/-- The entry of `checkpoint.json` for one file. -/
structure FileReceipt where
  filePath : String
  fileId : String
  entries : Nat
  baskets : Nat
  eventBase : Nat
  fileSize : Nat
  mtimeNs : Int
  snapshotId : String
  deriving DecidableEq, Repr

/-- `RootIndexMetadataWriter::Append`: the columns that are repeated in every files row come
    from the first one. -/
def FileCheckpoint.receipt (checkpoint : FileCheckpoint) : FileReceipt where
  filePath := checkpoint.filePath
  fileId := checkpoint.fileId
  entries := checkpoint.source.totalEntries
  baskets := (checkpoint.source.paths.map fun path => path.baskets.length).sum
  eventBase := checkpoint.eventBase
  fileSize := checkpoint.source.fileSize
  mtimeNs := checkpoint.source.mtimeNs
  snapshotId := checkpoint.snapshotId

/-! ### Segments -/

/-- The four tables of a list of files, before `DISTINCT`. -/
def tablesOf (checkpoints : List FileCheckpoint) : RootFileIndexMetadata where
  files := checkpoints.flatMap fun checkpoint => checkpoint.metadata.files
  schemas := checkpoints.flatMap fun checkpoint => checkpoint.metadata.schemas
  access := checkpoints.flatMap fun checkpoint => checkpoint.metadata.access
  baskets := checkpoints.flatMap fun checkpoint => checkpoint.metadata.baskets

/-- `SELECT DISTINCT` on the tables that are flushed and compacted with it. -/
def RootFileIndexMetadata.distinct (tables : RootFileIndexMetadata) : RootFileIndexMetadata :=
  { tables with schemas := tables.schemas.dedup, access := tables.access.dedup }

/-- `parts/worker-<worker>/segment-<number>`, or the directory it was renamed to when its
    receipt did not hold. -/
structure SegmentDirectory where
  worker : Nat
  number : Nat
  rejected : Bool := false
  checkpoints : List FileCheckpoint

namespace SegmentDirectory

def receipt (segment : SegmentDirectory) : List FileReceipt :=
  segment.checkpoints.map FileCheckpoint.receipt

/-- The Parquet files of the segment. -/
def tables (segment : SegmentDirectory) : RootFileIndexMetadata :=
  (tablesOf segment.checkpoints).distinct

end SegmentDirectory

/-! ### What the rows say -/

section Rows

variable (checkpoint : FileCheckpoint)

theorem foldl_writePath_files (paths : List IndexedPathPlan)
    (acc : RootFileIndexMetadata × List String) :
    (paths.foldl checkpoint.writePath acc).1.files =
      acc.1.files ++ paths.map checkpoint.fileRow := by
  induction paths generalizing acc with
  | nil => simp
  | cons path paths ih =>
    rw [List.foldl_cons, ih]
    simp [FileCheckpoint.writePath]

theorem foldl_writePath_baskets (paths : List IndexedPathPlan)
    (acc : RootFileIndexMetadata × List String) :
    (paths.foldl checkpoint.writePath acc).1.baskets =
      acc.1.baskets ++ paths.flatMap fun path => path.baskets.map (checkpoint.basketRow path) := by
  induction paths generalizing acc with
  | nil => simp
  | cons path paths ih =>
    rw [List.foldl_cons, ih]
    simp [FileCheckpoint.writePath]

@[simp] theorem metadata_files :
    checkpoint.metadata.files = checkpoint.source.paths.map checkpoint.fileRow := by
  simp [FileCheckpoint.metadata, FileCheckpoint.build, foldl_writePath_files]

@[simp] theorem metadata_baskets :
    checkpoint.metadata.baskets = checkpoint.source.paths.flatMap fun path =>
      path.baskets.map (checkpoint.basketRow path) := by
  simp [FileCheckpoint.metadata, FileCheckpoint.build, foldl_writePath_baskets]

/-- The schema rows of a column are among some rows. -/
structure SchemaWritten (tables : RootFileIndexMetadata) (column : String)
    (path : IndexedPathPlan) : Prop where
  column_eq : path.columnId = column
  schema_mem : path.schemaRow ∈ tables.schemas
  access_mem : ∀ row ∈ path.accessRows, row ∈ tables.access

/-- The step of the loop of `Build`: the columns it counts as written are the old ones and the
    path's, and only the path's may be new, with its schema rows. -/
theorem writePath_written (acc : RootFileIndexMetadata × List String) (path : IndexedPathPlan)
    (column : String) :
    (column ∈ (checkpoint.writePath acc path).2 ↔ column ∈ acc.2 ∨ path.columnId = column) ∧
      (path.columnId ∈ acc.2 ∨
        SchemaWritten (checkpoint.writePath acc path).1 path.columnId path) ∧
      ∀ known, SchemaWritten acc.1 column known →
        SchemaWritten (checkpoint.writePath acc path).1 column known := by
  refine ⟨?_, ?_, fun known h => ⟨h.column_eq, ?_, fun row hrow => ?_⟩⟩
  · by_cases hknown : path.columnId ∈ acc.2
    · simp only [FileCheckpoint.writePath, List.contains_eq_mem, hknown, decide_true,
        Bool.not_true, Bool.false_eq_true, if_false]
      constructor
      · exact Or.inl
      · rintro (h | rfl)
        · exact h
        · exact hknown
    · simp [FileCheckpoint.writePath, hknown, eq_comm]
  · by_cases hknown : path.columnId ∈ acc.2
    · exact .inl hknown
    · refine .inr ⟨rfl, ?_, fun row hrow => ?_⟩ <;>
        simp [FileCheckpoint.writePath, hknown]
      exact .inr hrow
  · exact List.mem_append_left _ h.schema_mem
  · exact List.mem_append_left _ (h.access_mem row hrow)

theorem foldl_writePath_written (paths : List IndexedPathPlan) (column : String) :
    ∀ acc : RootFileIndexMetadata × List String,
      (column ∈ (paths.foldl checkpoint.writePath acc).2 ↔
        column ∈ acc.2 ∨ ∃ path ∈ paths, path.columnId = column) ∧
      (column ∈ (paths.foldl checkpoint.writePath acc).2 → column ∈ acc.2 ∨
        ∃ path ∈ paths, SchemaWritten (paths.foldl checkpoint.writePath acc).1 column path) ∧
      ∀ known, SchemaWritten acc.1 column known →
        SchemaWritten (paths.foldl checkpoint.writePath acc).1 column known := by
  induction paths with
  | nil => exact fun acc => ⟨by simp, Or.inl, fun known h => h⟩
  | cons path paths ih =>
    intro acc
    obtain ⟨hcolumns, hfresh, hkeeps⟩ := writePath_written checkpoint acc path column
    obtain ⟨hrest, hwritten, hlater⟩ := ih (checkpoint.writePath acc path)
    rw [List.foldl_cons]
    refine ⟨?_, fun hmem => ?_, fun known h => hlater known (hkeeps known h)⟩
    · rw [hrest, hcolumns]
      simp only [List.mem_cons, exists_eq_or_imp, or_assoc]
    · rcases hwritten hmem with hold | ⟨later, hlater', hschema⟩
      · rcases hcolumns.mp hold with hold | rfl
        · exact .inl hold
        · rcases hfresh with hknown | hschema
          · exact .inl hknown
          · exact .inr ⟨path, List.mem_cons_self, hlater _ hschema⟩
      · exact .inr ⟨later, List.mem_cons_of_mem _ hlater', hschema⟩

/-- A worker counts a column as written when it was before or the file has a path with it. -/
theorem mem_nextWrittenColumns (column : String) :
    column ∈ checkpoint.nextWrittenColumns ↔
      column ∈ checkpoint.writtenColumns ∨
        ∃ path ∈ checkpoint.source.paths, path.columnId = column :=
  (foldl_writePath_written checkpoint checkpoint.source.paths column
    ({}, checkpoint.writtenColumns)).1

/-- A column that was not written before `Build` has its schema rows among the file's rows. -/
theorem schemaWritten_of_mem {column : String}
    (h : column ∈ checkpoint.nextWrittenColumns) :
    column ∈ checkpoint.writtenColumns ∨
      ∃ path ∈ checkpoint.source.paths, SchemaWritten checkpoint.metadata column path :=
  (foldl_writePath_written checkpoint checkpoint.source.paths column
    ({}, checkpoint.writtenColumns)).2.1 h

/-- The schema and access rows of a file are those of some of its paths. -/
theorem foldl_writePath_from (paths : List IndexedPathPlan) :
    ∀ acc : RootFileIndexMetadata × List String,
      (∀ row ∈ (paths.foldl checkpoint.writePath acc).1.schemas, row ∈ acc.1.schemas ∨
        row ∈ paths.map IndexedPathPlan.schemaRow) ∧
      (∀ row ∈ (paths.foldl checkpoint.writePath acc).1.access, row ∈ acc.1.access ∨
        row ∈ paths.flatMap IndexedPathPlan.accessRows) := by
  induction paths with
  | nil => exact fun acc => ⟨fun _ h => .inl h, fun _ h => .inl h⟩
  | cons path paths ih =>
    intro acc
    obtain ⟨hschemas, haccess⟩ := ih (checkpoint.writePath acc path)
    rw [List.foldl_cons, List.map_cons, List.flatMap_cons]
    refine ⟨fun row hrow => ?_, fun row hrow => ?_⟩
    · rcases hschemas row hrow with hold | hlater
      · rcases List.mem_append.mp hold with hold | hnew
        · exact .inl hold
        · split at hnew
          · exact .inr (List.mem_cons.mpr (.inl (List.mem_singleton.mp hnew)))
          · cases hnew
      · exact .inr (List.mem_cons_of_mem _ hlater)
    · rcases haccess row hrow with hold | hlater
      · rcases List.mem_append.mp hold with hold | hnew
        · exact .inl hold
        · split at hnew
          · exact .inr (List.mem_append_left _ hnew)
          · cases hnew
      · exact .inr (List.mem_append_right _ hlater)

theorem metadata_schemas_subset :
    checkpoint.metadata.schemas ⊆ checkpoint.source.paths.map IndexedPathPlan.schemaRow :=
  fun row hrow => ((foldl_writePath_from checkpoint checkpoint.source.paths
    ({}, checkpoint.writtenColumns)).1 row hrow).resolve_left List.not_mem_nil

theorem metadata_access_subset :
    checkpoint.metadata.access ⊆ checkpoint.source.paths.flatMap IndexedPathPlan.accessRows :=
  fun row hrow => ((foldl_writePath_from checkpoint checkpoint.source.paths
    ({}, checkpoint.writtenColumns)).2 row hrow).resolve_left List.not_mem_nil

end Rows

end RootLake.Index

/-
  RootLake/Iceberg/Publication.lean
  =================================
  **The publication of index generations into an Iceberg catalog.**

  A run publishes the parts of its staging directory one table after the other: the part is
  copied under a name of its own, the table is created if it has to be, and the file is appended
  to the table, which makes a new Iceberg snapshot.  The snapshots of the tables are written
  down in a part of their own, and the commit record is appended last.  A run can be cut off
  between any two of these, and a later run takes the same generation up again.
-/
import RootLake.Lib.AppendLog
import RootLake.Lib.Runs
import Mathlib.Logic.Function.Basic

namespace RootLake.Iceberg

open RootLake.AppendLog

/-! ### Tables and rows -/

inductive TableName where
  | files
  | schemas
  | access
  | baskets
  | pathSources
  | snapshots
  | commits
  deriving DecidableEq, Repr

def TableName.text : TableName → String
  | .files => "files"
  | .schemas => "schemas"
  | .access => "access"
  | .baskets => "baskets"
  | .pathSources => "path_sources"
  | .snapshots => "snapshots"
  | .commits => "commits"

/-- The file of a staging directory that goes into the table. -/
def TableName.part : TableName → String
  | .files => "root_files.parquet"
  | .schemas => "root_schemas.parquet"
  | .access => "root_access_levels.parquet"
  | .baskets => "root_baskets.parquet"
  | .pathSources => "root_path_sources.parquet"
  | .snapshots => "root_iceberg_snapshots.parquet"
  | .commits => "root_iceberg_commits.parquet"

/-- `base_parts`. -/
def baseTables : List TableName := [.files, .schemas, .access, .baskets]

structure PathRow where
  rootSnapshotId : String
  logicalPath : String
  physicalSnapshotId : String
  parentRootSnapshotId : String
  deriving DecidableEq, Repr

structure SnapshotRow where
  rootSnapshotId : String
  tableName : String
  icebergSnapshotId : Int
  metadataLocation : String
  manifestList : String
  recordCount : Nat
  deriving DecidableEq, Repr

structure CommitRow where
  rootSnapshotId : String
  state : String
  manifestFingerprint : String
  dictionaryFingerprint : String
  committedAtNs : Int
  deriving DecidableEq, Repr

/-- A Parquet file. The publication does not look into the parts of the four base tables. -/
inductive Part (Metadata : Type) where
  | metadata (content : Metadata)
  | pathSources (rows : List PathRow)
  | snapshots (rows : List SnapshotRow)
  | commits (rows : List CommitRow)
  deriving DecidableEq, Repr

namespace Part

variable {Metadata : Type}

def pathRows : Part Metadata → List PathRow
  | .pathSources rows => rows
  | _ => []

def snapshotRows : Part Metadata → List SnapshotRow
  | .snapshots rows => rows
  | _ => []

def commitRows : Part Metadata → List CommitRow
  | .commits rows => rows
  | _ => []

def contents : Part Metadata → List Metadata
  | .metadata content => [content]
  | _ => []

end Part

structure DataFile where
  filePath : String
  recordCount : Nat
  fileSize : Nat
  deriving DecidableEq, Repr

/-- `RootIcebergTableCommit`. -/
structure TableCommit where
  tableName : String
  icebergSnapshotId : Int
  metadataLocation : String
  manifestList : String
  recordCount : Nat
  deriving DecidableEq, Repr

/-! ### The catalog -/

/-- A table of the catalog and its data directory. The table exists once it has a schema. -/
structure MetadataTable (Metadata Schema : Type) where
  data : String → Option (Part Metadata)
  schema : Option Schema
  versions : List (Version Int DataFile)
  metadataLocation : String
  manifestList : String

def MetadataTable.putFile {Metadata Schema : Type} (table : MetadataTable Metadata Schema)
    (uri : String) (part : Part Metadata) : MetadataTable Metadata Schema :=
  { table with data := Function.update table.data uri (some part) }

abbrev Staging (Metadata : Type) := TableName → Option (Part Metadata)

/-- What is left of a publication to do. `append` is the second half of `AppendParquet`, from
    the current snapshot of the table on. -/
inductive Task where
  | openCatalog
  | place (table : TableName)
  | create (table : TableName)
  | append (table : TableName)
  | writeSnapshots
  | writeCommit
  deriving DecidableEq, Repr

structure Publisher where
  generation : String
  manifestFingerprint : String
  dictionaryFingerprint : String
  results : List TableCommit
  todo : List Task
  deriving DecidableEq, Repr

/-- An output directory. The build lock lets one run at a time in. -/
structure Lake (Metadata Schema : Type) where
  opened : Bool
  tables : TableName → MetadataTable Metadata Schema
  staging : String → Staging Metadata
  publisher : Option Publisher

/-- What a build is asked for, as far as the catalog is concerned. -/
structure IndexRequest where
  generation : String
  extend : Bool
  logicalPaths : List String
  datasetId : String
  treeName : String
  manifestFingerprint : String
  dictionaryFingerprint : String
  deriving DecidableEq, Repr

/-- What the publication asks the file system and the database about a Parquet file, and what the
    extension of a generation reads from the base tables. -/
structure PartFacts (Metadata Schema : Type) where
  fingerprint : Part Metadata → String
  fileSize : Part Metadata → Nat
  rowCount : Part Metadata → Except String Nat
  inferSchema : Part Metadata → Except String Schema
  sameSchema : Schema → Schema → Bool
  /-- The paths that the files and schemas tables have for a snapshot and a dataset. -/
  indexedPaths : List Metadata → List Metadata → String → String → List String
  validateOriginalFiles : List Metadata → IndexRequest → List String → Except String Unit

/-- What the catalog library and the clock choose. -/
structure Choice where
  snapshotId : Int
  metadataLocation : String
  manifestList : String
  nowNs : Int
  deriving DecidableEq, Repr

section Publication

variable {Metadata Schema : Type} (root : String) (facts : PartFacts Metadata Schema)

def destination (table : TableName) (generation : String) : String :=
  root ++ "/warehouse/root_index/" ++ table.text ++ "/data/" ++ generation ++ "-" ++ table.part

/-- The URI of the destination. -/
def fileUri (table : TableName) (generation : String) : String :=
  "file://" ++ destination root table generation

namespace Lake

def setTable (lake : Lake Metadata Schema) (name : TableName)
    (table : MetadataTable Metadata Schema) : Lake Metadata Schema :=
  { lake with tables := Function.update lake.tables name table }

def setPart (lake : Lake Metadata Schema) (generation : String) (name : TableName)
    (part : Option (Part Metadata)) : Lake Metadata Schema :=
  { lake with
    staging := Function.update lake.staging generation
      (Function.update (lake.staging generation) name part) }

/-- The file of a generation in the data directory of a table. -/
def placed (lake : Lake Metadata Schema) (name : TableName) (generation : String) :
    Option (Part Metadata) :=
  (lake.tables name).data (fileUri root name generation)

/-! ### `AppendParquet` -/

def stagedPart (lake : Lake Metadata Schema) (generation : String) (name : TableName) :
    Except String (Part Metadata) :=
  match lake.staging generation name with
  | none => .error ("Missing Parquet metadata part for Iceberg table " ++ name.text)
  | some part => .ok part

/-- Up to the rename of the copy. A destination that exists must have the same content. -/
def place (lake : Lake Metadata Schema) (generation : String) (name : TableName) :
    Except String (Lake Metadata Schema) := do
  let part ← lake.stagedPart generation name
  let _ ← facts.inferSchema part
  match lake.placed root name generation with
  | some existing =>
      if facts.fingerprint existing = facts.fingerprint part then .ok lake
      else .error ("Existing immutable Iceberg data file differs from staged content: " ++
        destination root name generation)
  | none =>
      .ok (lake.setTable name ((lake.tables name).putFile (fileUri root name generation) part))

/-- `GetOrCreateTable`. -/
def getOrCreateTable (lake : Lake Metadata Schema) (generation : String) (name : TableName)
    (choice : Choice) : Except String (Lake Metadata Schema) := do
  let part ← lake.stagedPart generation name
  let inferred ← facts.inferSchema part
  match (lake.tables name).schema with
  | some current =>
      if facts.sameSchema current inferred then .ok lake
      else .error ("Iceberg schema mismatch for root_index." ++ name.text ++
        "; automatic unsafe schema replacement is forbidden")
  | none =>
      .ok <| lake.setTable name {
        lake.tables name with
        schema := some inferred
        metadataLocation := choice.metadataLocation }

/-- `make_commit`, at the snapshot that is current. -/
def makeCommit (name : TableName) (table : MetadataTable Metadata Schema) (snapshotId : Int)
    (rows : Nat) : TableCommit where
  tableName := name.text
  icebergSnapshotId := snapshotId
  metadataLocation := table.metadataLocation
  manifestList := table.manifestList
  recordCount := rows

def fastAppend (lake : Lake Metadata Schema) (generation : String) (name : TableName)
    (part : Part Metadata) (choice : Choice) :
    Except String (Lake Metadata Schema × TableCommit) := do
  let rows ← facts.rowCount part
  let table : MetadataTable Metadata Schema := {
    lake.tables name with
    versions := append (lake.tables name).versions choice.snapshotId {
      filePath := fileUri root name generation
      recordCount := rows
      fileSize := facts.fileSize part }
    metadataLocation := choice.metadataLocation
    manifestList := choice.manifestList }
  .ok (lake.setTable name table, makeCommit name table choice.snapshotId rows)

/-- From the current snapshot of the table on: a file that it lists is not appended again. -/
def appendFile (lake : Lake Metadata Schema) (generation : String) (name : TableName)
    (choice : Choice) : Except String (Lake Metadata Schema × TableCommit) :=
  match lake.placed root name generation with
  | none => .error ("cannot get file size: " ++ destination root name generation)
  | some part =>
      match (lake.tables name).versions with
      | [] => lake.fastAppend root facts generation name part choice
      | version :: _ =>
          match version.files.find? (·.filePath = fileUri root name generation) with
          | none => lake.fastAppend root facts generation name part choice
          | some existing =>
              if existing.fileSize = facts.fileSize part then
                .ok (lake, makeCommit name (lake.tables name) version.id existing.recordCount)
              else
                .error ("Committed Iceberg data file size changed: " ++
                  destination root name generation)

/-! ### The last two parts -/

def snapshotRow (generation : String) (commit : TableCommit) : SnapshotRow where
  rootSnapshotId := generation
  tableName := commit.tableName
  icebergSnapshotId := commit.icebergSnapshotId
  metadataLocation := commit.metadataLocation
  manifestList := commit.manifestList
  recordCount := commit.recordCount

/-- What a saved part says about a table; the first row counts. -/
def savedSnapshot (saved : List SnapshotRow) (name : String) : Option Int :=
  (saved.find? (·.tableName = name)).map (·.icebergSnapshotId)

/-- `WriteSnapshotsParquet`: a part that is there is checked and kept. -/
def writeSnapshots (lake : Lake Metadata Schema) (generation : String)
    (tables : List TableCommit) : Except String (Lake Metadata Schema) :=
  match lake.staging generation .snapshots with
  | none =>
      .ok (lake.setPart generation .snapshots
        (some (.snapshots (tables.map (snapshotRow generation)))))
  | some part =>
      if part.snapshotRows.length ≠ tables.length then
        .error "Invalid resumed Iceberg snapshots metadata"
      else if ∀ table ∈ tables,
          savedSnapshot part.snapshotRows table.tableName = some table.icebergSnapshotId then
        .ok lake
      else .error "Iceberg snapshot origin changed during resume"

/-- `WriteCommitParquet`. -/
def writeCommit (lake : Lake Metadata Schema) (generation manifestFingerprint
    dictionaryFingerprint : String) (nowNs : Int) : Except String (Lake Metadata Schema) :=
  match lake.staging generation .commits with
  | none =>
      .ok (lake.setPart generation .commits (some (.commits [{
        rootSnapshotId := generation
        state := "COMMITTED"
        manifestFingerprint
        dictionaryFingerprint
        committedAtNs := nowNs }])))
  | some part =>
      match part.commitRows with
      | [row] =>
          if row.rootSnapshotId = generation ∧ row.state = "COMMITTED" ∧
              row.manifestFingerprint = manifestFingerprint ∧
              row.dictionaryFingerprint = dictionaryFingerprint then .ok lake
          else .error "Iceberg commit receipt differs from original request"
      | _ => .error "Invalid resumed Iceberg commit receipt"

/-! ### Reading the catalog -/

/-- The rows of `RootIcebergRelation`, here the parts of the files it reads. -/
def relation (lake : Lake Metadata Schema) (name : TableName) :
    Except String (List (Part Metadata)) :=
  if (lake.tables name).schema.isNone then
    .error ("Missing root_index." ++ name.text ++ " in Iceberg catalog " ++ root)
  else if (current (lake.tables name).versions).isEmpty then
    .error ("Iceberg table has no active data files: root_index." ++ name.text)
  else .ok ((current (lake.tables name).versions).filterMap fun file =>
    (lake.tables name).data file.filePath)

/-- `ORDER BY committed_at_ns DESC LIMIT 1`: any of the newest rows, or none when there is none. -/
def IsLatest (rows : List CommitRow) : Option CommitRow → Prop
  | none => rows = []
  | some row => row ∈ rows ∧ ∀ other ∈ rows, other.committedAtNs ≤ row.committedAtNs

instance (rows : List CommitRow) (latest : Option CommitRow) : Decidable (IsLatest rows latest) :=
  match latest with
  | none => inferInstanceAs (Decidable (rows = []))
  | some _ => inferInstanceAs (Decidable (_ ∧ _))

def committedRows (parts : List (Part Metadata)) : List CommitRow :=
  (parts.flatMap Part.commitRows).filter (·.state = "COMMITTED")

/-! ### `PrepareRootIcebergPathSources` -/

/-- Entering pairs into a map one by one. The order of the keys is left out. -/
def emplaceAll (duplicate : String) : List (String × String) → List (String × String) →
    Except String (List (String × String))
  | paths, [] => .ok paths
  | paths, (path, source) :: rest =>
      if (paths.lookup path).isSome then .error (duplicate ++ path)
      else emplaceAll duplicate (paths ++ [(path, source)]) rest

/-- The rows `SELECT DISTINCT logical_path, physical_snapshot_id` has for a generation. -/
def generationPaths (rows : List PathRow) (generation : String) : List (String × String) :=
  ((rows.filter (·.rootSnapshotId = generation)).map
    fun row => (row.logicalPath, row.physicalSnapshotId)).dedup

def recordedPaths (lake : Lake Metadata Schema) (parent : String) :
    Except String (List (String × String)) :=
  if (lake.tables .pathSources).schema.isNone then .ok []
  else do
    let parts ← lake.relation root .pathSources
    emplaceAll "Ambiguous ROOT indexed path lineage: " []
      (generationPaths (parts.flatMap Part.pathRows) parent)

/-- `PreviousPaths`: the recorded paths, else the indexed paths of the parent itself. -/
def previousPaths (lake : Lake Metadata Schema) (parent datasetId : String) :
    Except String (List (String × String)) := do
  let paths ← lake.recordedPaths root parent
  if paths ≠ [] then .ok paths
  else do
    let files ← lake.relation root .files
    let schemas ← lake.relation root .schemas
    let paths ← emplaceAll "Ambiguous ROOT indexed path: " []
      ((facts.indexedPaths (files.flatMap Part.contents) (schemas.flatMap Part.contents) parent
        datasetId).map fun path => (path, parent))
    if paths = [] then .error "No compatible committed ROOT index paths to extend"
    else .ok paths

/-- `WritePaths`. -/
def writePaths (lake : Lake Metadata Schema) (generation parent : String)
    (paths : List (String × String)) : Except String (Lake Metadata Schema) :=
  match lake.staging generation .pathSources with
  | some part =>
      if (part.pathRows.map (·.parentRootSnapshotId)).dedup = [parent] then .ok lake
      else .error "ROOT path checkpoint parent changed during recovery"
  | none =>
      if paths = [] then .error "Cannot publish an empty ROOT path generation"
      else .ok (lake.setPart generation .pathSources (some (.pathSources (paths.map
        fun path => ⟨generation, path.1, path.2, parent⟩))))

/-- The generation that a request extends, and its paths. -/
def extendedPaths (lake : Lake Metadata Schema) (request : IndexRequest) (latest : CommitRow) :
    Except String (List (String × String)) :=
  if latest.manifestFingerprint ≠ request.manifestFingerprint ∨
      latest.dictionaryFingerprint ≠ request.dictionaryFingerprint then
    .error "ROOT index extension manifest or dictionary differs from committed catalog"
  else do
    let paths ← lake.previousPaths root facts latest.rootSnapshotId request.datasetId
    let files ← lake.relation root .files
    facts.validateOriginalFiles (files.flatMap Part.contents) request (paths.map Prod.snd).dedup
    match request.logicalPaths.find? fun path => (paths.lookup path).isSome with
    | some path => .error ("ROOT path is already indexed: " ++ path)
    | none => .ok paths

/-- The rows that the request is for. -/
def requestedPaths (request : IndexRequest) : List (String × String) :=
  request.logicalPaths.map fun path => (path, request.generation)

def duplicatePath : String := "Duplicate ROOT logical path in index generation: "

/-- `PrepareRootIcebergPathSources`. `latest` is the answer to the query for the newest commit. -/
def preparePathSources (lake : Lake Metadata Schema) (request : IndexRequest)
    (latest : Option CommitRow) : Except String (Lake Metadata Schema) :=
  if request.extend then
    if !lake.opened then
      .error "ROOT index extension requires an existing committed Iceberg catalog"
    else do
      let _ ← lake.relation root .commits
      match latest with
      | none => .error "ROOT index extension requires a committed generation"
      | some row =>
          if row.rootSnapshotId = request.generation then
            if (lake.staging request.generation .pathSources).isNone then
              .error "Committed ROOT index recovery has no path checkpoint"
            else .ok lake
          else do
            let previous ← lake.extendedPaths root facts request row
            let paths ← emplaceAll duplicatePath previous (requestedPaths request)
            lake.writePaths request.generation row.rootSnapshotId paths
  else do
    let paths ← emplaceAll duplicatePath [] (requestedPaths request)
    lake.writePaths request.generation "" paths

/-! ### `PublishRootIndexStagingToIceberg` -/

def appendParquet (name : TableName) : List Task := [.place name, .create name, .append name]

/-- The body of the publication. The commit record is deliberately last. -/
def publication (pathsPart : Bool) : List Task :=
  .openCatalog :: baseTables.flatMap appendParquet ++
    (if pathsPart then appendParquet .pathSources else []) ++
      [.writeSnapshots] ++ appendParquet .snapshots ++ [.writeCommit] ++ appendParquet .commits

/-- One task: the catalog and the results after it. -/
def perform (lake : Lake Metadata Schema) (publisher : Publisher) (choice : Choice) :
    Task → Except String (Lake Metadata Schema × List TableCommit)
  | .openCatalog => .ok ({ lake with opened := true }, publisher.results)
  | .place name => do
      let next ← lake.place root facts publisher.generation name
      .ok (next, publisher.results)
  | .create name => do
      let next ← lake.getOrCreateTable facts publisher.generation name choice
      .ok (next, publisher.results)
  | .append name => do
      let (next, commit) ← lake.appendFile root facts publisher.generation name choice
      .ok (next, publisher.results ++ [commit])
  | .writeSnapshots => do
      let next ← lake.writeSnapshots publisher.generation publisher.results
      .ok (next, publisher.results)
  | .writeCommit => do
      let next ← lake.writeCommit publisher.generation publisher.manifestFingerprint
        publisher.dictionaryFingerprint choice.nowNs
      .ok (next, publisher.results)

/-- A new snapshot gets a positive identifier that the table has not had. -/
def Allows (lake : Lake Metadata Schema) (choice : Choice) : Task → Prop
  | .append name =>
      0 < choice.snapshotId ∧ choice.snapshotId ∉ (lake.tables name).versions.map (·.id)
  | _ => True

instance (lake : Lake Metadata Schema) (choice : Choice) (task : Task) :
    Decidable (lake.Allows choice task) :=
  match task with
  | .append _ => inferInstanceAs (Decidable (_ ∧ _))
  | .openCatalog | .place _ | .create _ | .writeSnapshots | .writeCommit =>
      inferInstanceAs (Decidable True)

end Lake

/-! ### Runs -/

/-- A `build` puts the parts of the base tables into a staging directory, `discard` takes a part
    out of it, a run begins with its path sources and goes on task by task. -/
inductive Action (Metadata : Type) where
  | build (generation : String) (content : TableName → Option Metadata)
  | discard (generation : String) (name : TableName)
  | begin (request : IndexRequest) (latest : Option CommitRow)
  | task (choice : Choice)
  | interrupt

namespace Lake

/-- The newest commit that a request sees: none if there is no table to ask. -/
def latestCommits (lake : Lake Metadata Schema) : List CommitRow :=
  match lake.relation root .commits with
  | .ok parts => committedRows parts
  | .error _ => []

def begin (lake : Lake Metadata Schema) (request : IndexRequest) (latest : Option CommitRow) :
    Lake Metadata Schema :=
  match lake.preparePathSources root facts request latest with
  | .error _ => lake
  | .ok next =>
      { next with
        publisher := some {
          generation := request.generation
          manifestFingerprint := request.manifestFingerprint
          dictionaryFingerprint := request.dictionaryFingerprint
          results := []
          todo := publication (next.staging request.generation .pathSources).isSome } }

/-- The next task of the run; a failure ends it, and so does the end of its tasks. -/
def performNext (lake : Lake Metadata Schema) (publisher : Publisher) (choice : Choice) :
    Lake Metadata Schema :=
  match publisher.todo with
  | [] => { lake with publisher := none }
  | task :: rest =>
      match lake.perform root facts publisher choice task with
      | .error _ => { lake with publisher := none }
      | .ok (next, results) =>
          { next with publisher := some { publisher with results, todo := rest } }

def build (lake : Lake Metadata Schema) (generation : String)
    (content : TableName → Option Metadata) : Lake Metadata Schema :=
  { lake with
    staging := Function.update lake.staging generation fun name =>
      if name ∈ baseTables then (content name).map .metadata else lake.staging generation name }

/-- Steps that a run takes, and those between the runs. -/
def step (lake : Lake Metadata Schema) :
    Action Metadata → Option (Lake Metadata Schema)
  | .build generation content =>
      if lake.publisher.isNone then some (lake.build generation content) else none
  | .discard generation name =>
      if lake.publisher.isNone then some (lake.setPart generation name none) else none
  | .begin request latest =>
      if lake.publisher.isNone ∧ request.generation ≠ "" ∧
          IsLatest (lake.latestCommits root) latest then
        some (lake.begin root facts request latest)
      else none
  | .task choice =>
      match lake.publisher with
      | none => none
      | some publisher =>
          if ∀ task ∈ publisher.todo.head?, lake.Allows choice task then
            some (lake.performNext root facts publisher choice)
          else none
  | .interrupt => some { lake with publisher := none }

end Lake

/-- An output directory that nothing has been published into. -/
def emptyLake : Lake Metadata Schema where
  opened := false
  tables _ := ⟨fun _ => none, none, [], "", ""⟩
  staging _ _ := none
  publisher := none

def publications : Runs.System (Lake Metadata Schema) (Action Metadata) where
  init lake := lake = emptyLake
  step lake action next := lake.step root facts action = some next

end Publication

end RootLake.Iceberg

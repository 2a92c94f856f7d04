import Mathlib.Logic.Relation
import RootLake.Index.SchemaIdentity
import RootLake.Reader.LogicalPath

/-!
# The identity of a build request

`DatasetId` hashes the tree's name, the root class and the files one behind the other, and
`ManifestFingerprint` the path, the size and the modification time of each file. Nothing marks
where a text ends, so a boundary that moves changes the request and not the bytes. Nothing
else leaves the bytes as they are (`requestsDistinguished_iff`).
-/

namespace RootLake.Index

open LogicalPath Text
open Relation (EqvGen)

/-! ### What is hashed -/

/-- The members of `BuildIndexBindData` that a dataset is identified by. -/
structure BuildIndexBindData where
  treeName : String
  logicalPaths : List (List Char)

/-- What `DatasetId` hashes. -/
structure DatasetRequest where
  treeName : String
  rootClass : String
  files : List String
  deriving DecidableEq

def datasetRequest (bind : BuildIndexBindData) (files : List String) :
    Except String DatasetRequest :=
  match parsePath (bind.logicalPaths.headD []) with
  | .error e => .error e
  | .ok parsed => .ok ⟨bind.treeName, String.ofList parsed.rootClass, files⟩

def datasetHash (request : DatasetRequest) : UInt64 :=
  request.files.foldl (fun hash file => fnvText file hash)
    (fnvText request.rootClass (fnvText request.treeName fnvSeed))

/-- `DatasetId`. -/
def datasetId (bind : BuildIndexBindData) (files : List String) : Except String String :=
  match datasetRequest bind files with
  | .error e => .error e
  | .ok request => .ok (hex64 (datasetHash request))

def rootLakeIndexVersion : Nat := 12

/-- A file as `ManifestFingerprint` finds it on the disk. -/
structure ManifestFile where
  path : String
  size : UInt64
  mtimeNs : Int64
  deriving DecidableEq

/-- The local files: `LocalFileSize` and `LocalMtimeNS`. -/
structure Disk where
  localFileSize : String → UInt64
  localMtimeNs : String → Int64

def Disk.manifest (disk : Disk) (files : List String) : List ManifestFile :=
  files.map fun file => ⟨file, disk.localFileSize file, disk.localMtimeNs file⟩

/-- `ManifestFingerprint`. -/
def manifestFingerprint (disk : Disk) (files : List String) : String :=
  hex64 <| files.foldl
    (fun hash file =>
      fnvNumber 8 (disk.localMtimeNs file).toInt
        (fnvNumber 8 (disk.localFileSize file).toNat (fnvText file hash)))
    (fnvText (toString rootLakeIndexVersion) fnvSeed)

def datasetBytes (request : DatasetRequest) : List UInt8 :=
  bytes request.treeName ++ (bytes request.rootClass ++ request.files.flatMap bytes)

/-- The size and the time of a file. -/
def statBytes (file : ManifestFile) : List UInt8 :=
  numberBytes 8 file.size.toNat ++ numberBytes 8 file.mtimeNs.toInt

def manifestBytes (files : List ManifestFile) : List UInt8 :=
  bytes (toString rootLakeIndexVersion) ++
    files.flatMap fun file => bytes file.path ++ statBytes file

theorem datasetHash_eq (request : DatasetRequest) :
    datasetHash request = fnv1a64 (datasetBytes request) fnvSeed := by
  rw [datasetBytes, fnv1a64_append, fnv1a64_append, ← foldl_fnv1a64]
  rfl

theorem manifestFingerprint_eq (disk : Disk) (files : List String) :
    manifestFingerprint disk files =
      hex64 (fnv1a64 (manifestBytes (disk.manifest files)) fnvSeed) := by
  have hstep : (fun hash file => fnvNumber 8 (disk.localMtimeNs file).toInt
      (fnvNumber 8 (disk.localFileSize file).toNat (fnvText file hash))) =
      fun hash file => fnv1a64 (bytes file ++ (numberBytes 8 (disk.localFileSize file).toNat ++
        numberBytes 8 (disk.localMtimeNs file).toInt)) hash := by
    funext hash file
    rw [fnv1a64_append, fnv1a64_append]
    rfl
  rw [manifestFingerprint, hstep, foldl_fnv1a64, manifestBytes, fnv1a64_append, Disk.manifest,
    List.flatMap_map]
  rfl

/-! ### Boundaries of texts -/

/-- A tree's name, a root class and files. -/
abbrev Texts := List UInt8 × List UInt8 × List (List UInt8)

/-- One boundary moves: some of the tree's name becomes part of the class, or some of the class
    becomes a file. -/
inductive BoundaryMoves : Texts → Texts → Prop
  | ofTree (tree moved rootClass : List UInt8) (files : List (List UInt8)) :
      BoundaryMoves (tree ++ moved, rootClass, files) (tree, moved ++ rootClass, files)
  | ofClass (tree rootClass moved : List UInt8) (files : List (List UInt8)) :
      BoundaryMoves (tree, rootClass ++ moved, files) (tree, rootClass, moved :: files)

def Texts.joined (texts : Texts) : List UInt8 := texts.1 ++ (texts.2.1 ++ texts.2.2.flatten)

/-- Every list of texts is one text whose boundaries moved. -/
theorem moves_joined (tree rootClass : List UInt8) (files : List (List UInt8)) :
    EqvGen BoundaryMoves (Texts.joined (tree, rootClass, files), [], [])
      (tree, rootClass, files) := by
  have hfiles : EqvGen BoundaryMoves (tree, rootClass ++ files.flatten, [])
      (tree, rootClass, files) := by
    induction files generalizing rootClass with
    | nil =>
      rw [List.flatten_nil, List.append_nil]
      exact EqvGen.refl _
    | cons file files ih =>
      rw [List.flatten_cons, ← List.append_assoc]
      exact EqvGen.trans _ _ _ (ih (rootClass ++ file))
        (EqvGen.rel _ _ (BoundaryMoves.ofClass tree rootClass file files))
  have htree := BoundaryMoves.ofTree tree (rootClass ++ files.flatten) [] []
  rw [List.append_nil] at htree
  exact EqvGen.trans _ _ _ (EqvGen.rel _ _ htree) hfiles

/-- Texts are the same one behind the other exactly when boundaries moved. -/
theorem moves_iff {texts other : Texts} :
    EqvGen BoundaryMoves texts other ↔ texts.joined = other.joined := by
  constructor
  · intro h
    induction h with
    | rel texts other h =>
      cases h with
      | ofTree => simp [Texts.joined]
      | ofClass => simp [Texts.joined]
    | refl => rfl
    | symm _ _ _ ih => exact ih.symm
    | trans _ _ _ _ _ hfirst hsecond => exact hfirst.trans hsecond
  · intro h
    have hother := moves_joined other.1 other.2.1 other.2.2
    rw [← h] at hother
    exact EqvGen.trans _ _ _ (EqvGen.symm _ _ (moves_joined texts.1 texts.2.1 texts.2.2)) hother

/-! ### Boundaries of paths -/

/-- Paths, each with the sixteen bytes of its size and time. -/
abbrev StatRecords := List (List UInt8 × List UInt8)

/-- A path, its size and time and the next path are read as one path. -/
inductive PathsJoin : StatRecords → StatRecords → Prop
  | join (front back : StatRecords) (path stat next nextStat : List UInt8) :
      PathsJoin (front ++ (path, stat) :: (next, nextStat) :: back)
        (front ++ (path ++ (stat ++ next), nextStat) :: back)

def StatRecords.joined (records : StatRecords) : List UInt8 :=
  records.flatMap fun record => record.1 ++ record.2

/-- StatRecords are one record whose path is cut. -/
theorem joins_single (path stat : List UInt8) (records : StatRecords)
    (hrecords : ∀ record ∈ (path, stat) :: records, record.2.length = 16) :
    ∃ longPath longStat, longStat.length = 16 ∧
      StatRecords.joined ((path, stat) :: records) = longPath ++ longStat ∧
      EqvGen PathsJoin ((path, stat) :: records) [(longPath, longStat)] := by
  induction records generalizing path stat with
  | nil =>
    refine ⟨path, stat, hrecords _ List.mem_cons_self, ?_, EqvGen.refl _⟩
    simp [StatRecords.joined]
  | cons record records ih =>
    have hjoined : ∀ other ∈ (path ++ (stat ++ record.1), record.2) :: records,
        other.2.length = 16 := by
      intro other hother
      rcases List.mem_cons.mp hother with rfl | hother
      · exact hrecords record (List.mem_cons_of_mem _ List.mem_cons_self)
      · exact hrecords other (List.mem_cons_of_mem _ (List.mem_cons_of_mem _ hother))
    obtain ⟨longPath, longStat, hlength, hbytes, hjoins⟩ := ih _ _ hjoined
    refine ⟨longPath, longStat, hlength, ?_, EqvGen.trans _ _ _ (EqvGen.rel _ _
      (PathsJoin.join [] records path stat record.1 record.2)) hjoins⟩
    rw [← hbytes]
    simp [StatRecords.joined]

theorem joins_joined {records other : StatRecords} (h : EqvGen PathsJoin records other) :
    records.joined = other.joined := by
  induction h with
  | rel records other h =>
    cases h with
    | join => simp [StatRecords.joined]
  | refl => rfl
  | symm _ _ _ ih => exact ih.symm
  | trans _ _ _ _ _ hfirst hsecond => exact hfirst.trans hsecond

/-- StatRecords are the same one behind the other exactly when paths were joined and cut. -/
theorem joins_iff {records other : StatRecords} (hrecords : ∀ record ∈ records, record.2.length = 16)
    (hother : ∀ record ∈ other, record.2.length = 16) :
    EqvGen PathsJoin records other ↔ records.joined = other.joined := by
  refine ⟨joins_joined, fun h => ?_⟩
  have hempty {path stat : List UInt8} {records : StatRecords}
      (hrecords : ∀ record ∈ (path, stat) :: records, record.2.length = 16)
      (hnil : StatRecords.joined ((path, stat) :: records) = []) : False := by
    have hlength := congrArg List.length hnil
    have hstat : stat.length = 16 := hrecords _ List.mem_cons_self
    simp only [StatRecords.joined, List.flatMap_cons, List.length_append, List.length_nil] at hlength
    omega
  cases records with
  | nil =>
    cases other with
    | nil => exact EqvGen.refl _
    | cons record other => exact (hempty hother h.symm).elim
  | cons record records =>
    cases other with
    | nil => exact (hempty hrecords h).elim
    | cons otherRecord other =>
      obtain ⟨path, stat, hstat, hbytes, hjoins⟩ := joins_single _ _ _ hrecords
      obtain ⟨otherPath, otherStat, hotherStat, hotherBytes, hotherJoins⟩ :=
        joins_single _ _ _ hother
      rw [hbytes, hotherBytes] at h
      obtain ⟨rfl, rfl⟩ := List.append_inj' h (hstat.trans hotherStat.symm)
      exact EqvGen.trans _ _ _ hjoins (EqvGen.symm _ _ hotherJoins)

/-! ### Requests -/

def DatasetRequest.texts (request : DatasetRequest) : Texts :=
  (bytes request.treeName, bytes request.rootClass, request.files.map bytes)

def manifestRecords (files : List ManifestFile) : StatRecords :=
  files.map fun file => (bytes file.path, statBytes file)

/-- Two requests that differ are hashed from different bytes, so only a collision of the hash
    gives them one identifier. -/
structure RequestsDistinguished (bind other : BuildIndexBindData) (disk otherDisk : Disk)
    (files otherFiles : List String) (request otherRequest : DatasetRequest) : Prop where
  dataset : request ≠ otherRequest → datasetBytes request ≠ datasetBytes otherRequest ∧
    (datasetId bind files = datasetId other otherFiles →
      Collide (datasetBytes request) (datasetBytes otherRequest))
  manifest : disk.manifest files ≠ otherDisk.manifest otherFiles →
    manifestBytes (disk.manifest files) ≠ manifestBytes (otherDisk.manifest otherFiles) ∧
    (manifestFingerprint disk files = manifestFingerprint otherDisk otherFiles →
      Collide (manifestBytes (disk.manifest files))
        (manifestBytes (otherDisk.manifest otherFiles)))

theorem datasetBytes_iff {request other : DatasetRequest} :
    datasetBytes request = datasetBytes other ↔
      EqvGen BoundaryMoves request.texts other.texts := by
  have hjoined (request : DatasetRequest) : datasetBytes request = request.texts.joined := by
    rw [datasetBytes, List.flatMap_def]
    rfl
  rw [hjoined, hjoined, moves_iff]

theorem manifestBytes_iff {files others : List ManifestFile} :
    manifestBytes files = manifestBytes others ↔
      EqvGen PathsJoin (manifestRecords files) (manifestRecords others) := by
  have hstat (files : List ManifestFile) :
      ∀ record ∈ manifestRecords files, record.2.length = 16 := by
    intro record hrecord
    obtain ⟨file, -, rfl⟩ := List.mem_map.mp hrecord
    rw [statBytes, List.length_append, length_numberBytes, length_numberBytes]
  have hjoined (files : List ManifestFile) : manifestBytes files =
      bytes (toString rootLakeIndexVersion) ++ (manifestRecords files).joined := by
    rw [manifestBytes, StatRecords.joined, manifestRecords, List.flatMap_map]
  rw [joins_iff (hstat files) (hstat others), hjoined, hjoined, List.append_cancel_left_eq]

/-- Two requests are told apart exactly when none of their boundaries only moved. -/
theorem requestsDistinguished_iff {bind other : BuildIndexBindData}
    {files otherFiles : List String} {request otherRequest : DatasetRequest}
    (hrequest : datasetRequest bind files = .ok request)
    (hother : datasetRequest other otherFiles = .ok otherRequest) (disk otherDisk : Disk) :
    RequestsDistinguished bind other disk otherDisk files otherFiles request otherRequest ↔
      (request = otherRequest ∨ ¬ EqvGen BoundaryMoves request.texts otherRequest.texts) ∧
      (disk.manifest files = otherDisk.manifest otherFiles ∨
        ¬ EqvGen PathsJoin (manifestRecords (disk.manifest files))
          (manifestRecords (otherDisk.manifest otherFiles))) := by
  rw [← datasetBytes_iff, ← manifestBytes_iff]
  constructor
  · intro h
    exact ⟨or_iff_not_imp_left.mpr fun hne => (h.dataset hne).1,
      or_iff_not_imp_left.mpr fun hne => (h.manifest hne).1⟩
  · rintro ⟨hdataset, hmanifest⟩
    refine ⟨fun hne => ?_, fun hne => ?_⟩
    · have hbytes := hdataset.resolve_left hne
      refine ⟨hbytes, fun hid => ⟨hbytes, ?_⟩⟩
      rw [datasetId, datasetId, hrequest, hother] at hid
      rw [← datasetHash_eq, ← datasetHash_eq]
      exact hex64_inj.mp (Except.ok.inj hid)
    · have hbytes := hmanifest.resolve_left hne
      refine ⟨hbytes, fun hid => ⟨hbytes, ?_⟩⟩
      rw [manifestFingerprint_eq, manifestFingerprint_eq] at hid
      exact hex64_inj.mp hid

/-! ### A name that ends elsewhere -/

/-- The tree `EventsRaw` with the class `Hit`, and the tree `Events` with the class `RawHit`. -/
def rawEvents : BuildIndexBindData := ⟨"EventsRaw", ["/Hit/u".toList]⟩

def rawHits : BuildIndexBindData := ⟨"Events", ["/RawHit/u".toList]⟩

def oneDisk : Disk := ⟨fun _ => 4096, fun _ => 1700000000000000000⟩

theorem tree_and_class_confused :
    datasetRequest rawEvents ["run.root"] = .ok ⟨"EventsRaw", "Hit", ["run.root"]⟩ ∧
      datasetRequest rawHits ["run.root"] = .ok ⟨"Events", "RawHit", ["run.root"]⟩ ∧
      ¬ RequestsDistinguished rawEvents rawHits oneDisk oneDisk ["run.root"] ["run.root"]
        ⟨"EventsRaw", "Hit", ["run.root"]⟩ ⟨"Events", "RawHit", ["run.root"]⟩ := by
  refine ⟨by decide +kernel, by decide +kernel, fun h => (h.dataset (by decide)).1 ?_⟩
  have htree : bytes "EventsRaw" = bytes "Events" ++ bytes "Raw" := bytes_append "Events" "Raw"
  have hclass : bytes "RawHit" = bytes "Raw" ++ bytes "Hit" := bytes_append "Raw" "Hit"
  simp only [datasetBytes, htree, hclass, List.append_assoc]

/-- The tree `Signal` with the class `Hit`. -/
def signalHits : BuildIndexBindData := ⟨"Signal", ["/Hit/u".toList]⟩

theorem signal_and_events_distinguished :
    RequestsDistinguished rawEvents signalHits oneDisk oneDisk ["run.root"] ["run.root"]
      ⟨"EventsRaw", "Hit", ["run.root"]⟩ ⟨"Signal", "Hit", ["run.root"]⟩ := by
  refine (requestsDistinguished_iff (by decide +kernel) (by decide +kernel) oneDisk oneDisk).mpr
    ⟨.inr ?_, .inl rfl⟩
  rw [← datasetBytes_iff]
  decide +kernel

end RootLake.Index

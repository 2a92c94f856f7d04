/-
  RootLake/Iceberg/CommittedGenerations.lean
  ==========================================
  **A generation with a commit record is complete.**

  The commit record is the boundary that readers see.  Whatever runs, resumptions and crashes a
  catalog has been through, a generation that has one is in every table exactly once, and the
  snapshots it wrote down list its files.
-/
import RootLake.Iceberg.PublicationRuns

namespace RootLake.Iceberg

open RootLake.AppendLog RootLake.ExceptRules RootLake.Iceberg.Lake

variable {Metadata Schema : Type} {root : String} {facts : PartFacts Metadata Schema}
variable {lake next : Lake Metadata Schema} {generation : String} {name : TableName}

/-! ### The rows of a generation -/

/-- The rows that some files of a table hold. -/
def Lake.rowsOf {Row : Type} (lake : Lake Metadata Schema) (name : TableName)
    (rows : Part Metadata → List Row) (files : List DataFile) : List Row :=
  files.flatMap fun file => (((lake.tables name).data file.filePath).map rows).getD []

theorem relation_rows {Row : Type} {rows : Part Metadata → List Row}
    {parts : List (Part Metadata)} (h : lake.relation root name = .ok parts) :
    parts.flatMap rows = lake.rowsOf name rows (current (lake.tables name).versions) := by
  rw [relation_ok h, rowsOf]
  induction current (lake.tables name).versions with
  | nil => rfl
  | cons file files ih =>
    rw [List.filterMap_cons, List.flatMap_cons, ← ih]
    cases (lake.tables name).data file.filePath with
    | none => rfl
    | some part => exact List.flatMap_cons ..

/-- A table that lists something can be read. -/
theorem Consistent.relation (h : Consistent root lake)
    (hlisted : lake.Listed root name generation) :
    ∃ parts, lake.relation root name = .ok parts := by
  have hfiles : current (lake.tables name).versions ≠ [] := by
    intro hnil
    rw [Listed, hnil] at hlisted
    exact List.not_mem_nil hlisted
  have hversions : (lake.tables name).versions ≠ [] := by
    intro hnil
    rw [hnil] at hfiles
    exact hfiles rfl
  have hschema := h.created name hversions
  rw [Lake.relation, if_neg (by simpa [Option.isSome_iff_ne_none] using hschema),
    if_neg (by simpa using hfiles)]
  exact ⟨_, rfl⟩

/-- The files that a snapshot lists are there. -/
theorem Consistent.files_filesAt (h : Consistent root lake) {id : Int} {files : List DataFile}
    (hfiles : filesAt (lake.tables name).versions id = some files) :
    files.Sublist (current (lake.tables name).versions) :=
  (h.sound name).grows _ (filesAt_mem hfiles)

/-- **The rows of a generation are those of its file**, in whatever snapshot lists it. -/
theorem Consistent.filter_rowsOf {Row : Type} (h : Consistent root lake)
    {rows : Part Metadata → List Row} {owner : Row → String}
    (howner : ∀ other part, lake.placed root name other = some part →
      ∀ row ∈ rows part, owner row = other)
    {files : List DataFile} (hfiles : files.Sublist (current (lake.tables name).versions))
    (hlisted : fileUri root name generation ∈ files.map (·.filePath)) {part : Part Metadata}
    (hpart : lake.placed root name generation = some part) :
    (lake.rowsOf name rows files).filter (fun row => owner row = generation) = rows part := by
  obtain ⟨file, hfile, huri⟩ := List.mem_map.mp hlisted
  have hnodup : (files.map (·.filePath)).Nodup := (h.sound name).files.sublist (hfiles.map _)
  have hrows : ∀ other ∈ files,
      ∀ row ∈ (((lake.tables name).data other.filePath).map rows).getD [],
        fileUri root name (owner row) = other.filePath := by
    intro other hother row hrow
    obtain ⟨otherGeneration, otherPart, hotherUri, hotherPart⟩ :=
      h.files name other (hfiles.subset hother)
    rw [hotherUri] at hrow ⊢
    rw [← Lake.placed, hotherPart] at hrow
    rw [howner otherGeneration otherPart hotherPart row hrow]
  have hfilter := filter_flatMap hnodup hrows hfile
  rw [huri, ← Lake.placed, hpart] at hfilter
  rw [rowsOf]
  refine Eq.trans ?_ hfilter
  congr 1
  funext row
  exact decide_eq_decide.mpr (fileUri_injective root name).eq_iff.symm

theorem Consistent.snapshotRows (h : Consistent root lake)
    (hcommitted : lake.Committed root generation) {parts : List (Part Metadata)}
    (hparts : lake.relation root .snapshots = .ok parts) :
    SnapshotRecord root lake generation
      ((parts.flatMap Part.snapshotRows).filter (·.rootSnapshotId = generation)) := by
  have hlisted := h.complete generation hcommitted .snapshots
  obtain ⟨part, hpart⟩ := h.placed hlisted
  have hgood : ∀ other part, lake.placed root .snapshots other = some part →
      SnapshotRecord root lake other part.snapshotRows := fun other part hpart =>
    h.parts other .snapshots part (.inr hpart)
  have howner : ∀ other part, lake.placed root .snapshots other = some part →
      ∀ row ∈ part.snapshotRows, row.rootSnapshotId = other := fun other part hpart =>
    (hgood other part hpart).own
  rw [relation_rows hparts, h.filter_rowsOf howner (List.Sublist.refl _) hlisted hpart]
  exact hgood generation part hpart

/-! ### Commit records -/

/-- The rows of the commit table. -/
def Lake.commitLog (lake : Lake Metadata Schema) : List CommitRow :=
  lake.rowsOf .commits Part.commitRows (current (lake.tables .commits).versions)

/-- The rows of the snapshots table that a generation has written about a table. -/
def Lake.snapshotRecords (lake : Lake Metadata Schema) (generation : String) (name : TableName) :
    List SnapshotRow :=
  (lake.rowsOf .snapshots Part.snapshotRows (current (lake.tables .snapshots).versions)).filter
    fun row => row.rootSnapshotId = generation ∧ row.tableName = name.text

theorem Consistent.receipt (h : Consistent root lake) {part : Part Metadata}
    (hpart : lake.placed root .commits generation = some part) :
    Receipt generation part.commitRows :=
  h.parts generation .commits part (.inr hpart)

/-- A row of the commit table is the receipt of a committed generation. -/
theorem Consistent.mem_commitLog (h : Consistent root lake) {row : CommitRow}
    (hrow : row ∈ lake.commitLog) :
    lake.Committed root row.rootSnapshotId ∧ row.state = "COMMITTED" := by
  obtain ⟨file, hfile, hrow⟩ := List.mem_flatMap.mp hrow
  obtain ⟨generation, part, huri, hpart⟩ := h.files .commits file hfile
  obtain ⟨manifest, dictionary, now, hrows⟩ := h.receipt hpart
  rw [huri, ← Lake.placed, hpart, Option.map_some, Option.getD_some, hrows,
    List.mem_singleton] at hrow
  subst hrow
  exact ⟨List.mem_map.mpr ⟨file, hfile, huri⟩, rfl⟩

/-- The commit table has one row of a committed generation. -/
theorem Consistent.filter_commitLog (h : Consistent root lake)
    (hcommitted : lake.Committed root generation) :
    ∃ row, lake.commitLog.filter (·.rootSnapshotId = generation) = [row] := by
  obtain ⟨part, hpart⟩ := h.placed hcommitted
  have howner : ∀ other part, lake.placed root .commits other = some part →
      ∀ receipt ∈ part.commitRows, receipt.rootSnapshotId = other := by
    intro other part hpart receipt hreceipt
    obtain ⟨manifest, dictionary, now, hrows⟩ := h.receipt hpart
    rw [hrows, List.mem_singleton] at hreceipt
    rw [hreceipt]
  obtain ⟨manifest, dictionary, now, hrows⟩ := h.receipt hpart
  refine ⟨_, (h.filter_rowsOf howner (List.Sublist.refl _) hcommitted hpart).trans hrows⟩

/-- Every table lists the file of a committed generation once. -/
theorem Consistent.count_eq_one (h : Consistent root lake)
    (hcommitted : lake.Committed root generation) (name : TableName) :
    ((current (lake.tables name).versions).map (·.filePath)).count
      (fileUri root name generation) = 1 :=
  List.count_eq_one_of_mem (h.sound name).files (h.complete generation hcommitted name)

/-- **A generation with a commit record is complete.** Its record is the only one, its files are
    each listed once, and each of the snapshots it recorded is there and lists its file once. -/
theorem committed_generation (h : (publications root facts).Reachable lake)
    {commits : List (Part Metadata)} (hcommits : lake.relation root .commits = .ok commits)
    {row : CommitRow} (hrow : row ∈ committedRows commits) :
    (committedRows commits).filter (·.rootSnapshotId = row.rootSnapshotId) = [row] ∧
      (∀ name, ((current (lake.tables name).versions).map (·.filePath)).count
        (fileUri root name row.rootSnapshotId) = 1) ∧
      ∃ parts, lake.relation root .snapshots = .ok parts ∧ ∃ records,
        records = (parts.flatMap Part.snapshotRows).filter
          (·.rootSnapshotId = row.rootSnapshotId) ∧
        records.map (·.tableName) = recordedTables.map TableName.text ∧
        ∀ name ∈ recordedTables, ∀ record ∈ records, record.tableName = name.text →
          0 < record.icebergSnapshotId ∧
            ∃ files, filesAt (lake.tables name).versions record.icebergSnapshotId = some files ∧
              (files.map (·.filePath)).count (fileUri root name row.rootSnapshotId) = 1 := by
  have hconsistent := (invariant_of_reachable h).consistent
  have hlog : row ∈ lake.commitLog := by
    rw [Lake.commitLog, ← relation_rows hcommits]
    exact (List.mem_filter.mp hrow).1
  obtain ⟨hcommitted, -⟩ := hconsistent.mem_commitLog hlog
  refine ⟨?_, hconsistent.count_eq_one hcommitted, ?_⟩
  · obtain ⟨record, hrecord⟩ := hconsistent.filter_commitLog hcommitted
    have hin : row ∈ [record] := by
      rw [← hrecord, List.mem_filter]
      exact ⟨hlog, decide_eq_true rfl⟩
    rw [committedRows, List.filter_comm, relation_rows hcommits, ← Lake.commitLog, hrecord,
      ← List.mem_singleton.mp hin]
    exact List.filter_eq_self.mpr fun other hother =>
      List.mem_singleton.mp hother ▸ (List.mem_filter.mp hrow).2
  · obtain ⟨parts, hparts⟩ :=
      hconsistent.relation (hconsistent.complete _ hcommitted .snapshots)
    have hrecord := hconsistent.snapshotRows hcommitted hparts
    refine ⟨parts, hparts, _, rfl, hrecord.tables, ?_⟩
    intro name hname record hmem htable
    refine ⟨hrecord.positive record hmem, ?_⟩
    exact (hrecord.listsAt name hname record hmem htable).filesAt (hconsistent.sound name)

/-! ### All or nothing -/

/-- The commit table has a generation at most once, and when it does, every table lists the file
    of the generation once, and the one snapshot that is written down for a data table is a version
    of it that has the file. -/
structure AllOrNothing (root : String) (lake : Lake Metadata Schema) (generation : String) :
    Prop where
  once : (lake.commitLog.map (·.rootSnapshotId)).count generation ≤ 1
  listed : generation ∈ lake.commitLog.map (·.rootSnapshotId) → ∀ name,
    ((current (lake.tables name).versions).map (·.filePath)).count
      (fileUri root name generation) = 1
  recorded : generation ∈ lake.commitLog.map (·.rootSnapshotId) → ∀ name ∈ recordedTables,
    ∃ record files, lake.snapshotRecords generation name = [record] ∧
      filesAt (lake.tables name).versions record.icebergSnapshotId = some files ∧
      fileUri root name generation ∈ files.map (·.filePath)

theorem filter_recordedTables : ∀ name ∈ recordedTables,
    (recordedTables.map TableName.text).filter (· = name.text) = [name.text] := by decide

/-- A committed generation has written down one snapshot for each data table. -/
theorem Consistent.exists_snapshotRecord (h : Consistent root lake)
    (hcommitted : lake.Committed root generation) (hname : name ∈ recordedTables) :
    ∃ record, lake.snapshotRecords generation name = [record] ∧
      lake.ListsAt root name record.icebergSnapshotId generation := by
  obtain ⟨parts, hparts⟩ := h.relation (h.complete generation hcommitted .snapshots)
  have hrecord := h.snapshotRows hcommitted hparts
  rw [relation_rows hparts] at hrecord
  have hrecords : lake.snapshotRecords generation name =
      ((lake.rowsOf .snapshots Part.snapshotRows (current (lake.tables .snapshots).versions)).filter
        (·.rootSnapshotId = generation)).filter (·.tableName = name.text) := by
    rw [Lake.snapshotRecords, List.filter_filter]
    exact List.filter_congr fun row _ => by rw [Bool.decide_and, Bool.and_comm]
  have hone : (lake.snapshotRecords generation name).map (·.tableName) = [name.text] := by
    rw [hrecords, ← filter_recordedTables name hname, ← hrecord.tables, List.filter_map]
    rfl
  obtain ⟨record, hrows, htable⟩ := List.map_eq_singleton_iff.mp hone
  refine ⟨record, hrows, hrecord.listsAt name hname record ?_ htable⟩
  rw [hrecords] at hrows
  exact List.mem_of_mem_filter (hrows ▸ List.mem_singleton_self record)

/-- **Publication is all or nothing.** However often runs are interrupted and taken up again, a
    generation is in the commit table only with everything that belongs to it. -/
theorem publication_all_or_nothing (h : (publications root facts).Reachable lake)
    (generation : String) : AllOrNothing root lake generation := by
  have hconsistent := (invariant_of_reachable h).consistent
  have hcommitted : generation ∈ lake.commitLog.map (·.rootSnapshotId) →
      lake.Committed root generation := by
    intro hmem
    obtain ⟨row, hrow, rfl⟩ := List.mem_map.mp hmem
    exact (hconsistent.mem_commitLog hrow).1
  refine ⟨?_, fun hmem => hconsistent.count_eq_one (hcommitted hmem), fun hmem name hname => ?_⟩
  · by_cases hmem : generation ∈ lake.commitLog.map (·.rootSnapshotId)
    · obtain ⟨row, hrow⟩ := hconsistent.filter_commitLog (hcommitted hmem)
      have hcount : lake.commitLog.countP (fun row => row.rootSnapshotId = generation) = 1 := by
        rw [List.countP_eq_length_filter, hrow]
        rfl
      rw [List.count, List.countP_map]
      exact Nat.le_of_eq hcount
    · rw [List.count_eq_zero_of_not_mem hmem]
      exact Nat.zero_le _
  · obtain ⟨record, hrecord, hlists⟩ := hconsistent.exists_snapshotRecord (hcommitted hmem) hname
    obtain ⟨files, hfiles, hcount⟩ := hlists.filesAt (hconsistent.sound name)
    exact ⟨record, files, hrecord, hfiles, List.count_pos_iff.mp (hcount ▸ Nat.one_pos)⟩

/-! ### Two generations -/

/-- Parts that all look the same. -/
def plainFacts : PartFacts Nat Unit where
  fingerprint _ := ""
  fileSize _ := 0
  rowCount _ := .ok 1
  inferSchema _ := .ok ()
  sameSchema _ _ := true
  indexedPaths _ _ _ _ := []
  validateOriginalFiles _ _ _ := .ok ()

def plainRequest (generation : String) (extend : Bool) (path : String) : IndexRequest :=
  ⟨generation, extend, [path], "d", "Events", "m", "k"⟩

def plainCommit (generation : String) (nowNs : Int) : CommitRow :=
  ⟨generation, "COMMITTED", "m", "k", nowNs⟩

def plainTasks (count first : Nat) : List (Action Nat) :=
  (List.range count).map fun i => .task ⟨first + i, "metadata", "manifests", first⟩

def firstGeneration : List (Action Nat) :=
  [.build "1" fun _ => some 7, .begin (plainRequest "1" false "pt") none] ++ plainTasks 25 1

/-- The second generation extends the first; it is cut off once and taken up again. -/
def secondGeneration : List (Action Nat) :=
  [.build "2" fun _ => some 8, .begin (plainRequest "2" true "eta") (plainCommit "1" 1)] ++
    plainTasks 9 101 ++
    [.interrupt, .begin (plainRequest "2" true "eta") (plainCommit "1" 1)] ++ plainTasks 25 201

def twoGenerations : List (Action Nat) := firstGeneration ++ secondGeneration

theorem plainRun_reachable {actions : List (Action Nat)} {lake : Lake Nat Unit}
    (h : Runs.runSteps (Lake.step "" plainFacts) emptyLake actions = some lake) :
    (publications "" plainFacts).Reachable lake := by
  refine Runs.System.reached_of_runSteps ?_ (.init rfl) h
  exact fun _ _ _ hstep => ⟨trivial, hstep⟩

theorem twoGenerations_reached : ∃ (lake : Lake Nat Unit) (commits : List (Part Nat)),
    (publications "" plainFacts).Reachable lake ∧ lake.relation "" .commits = .ok commits ∧
      committedRows commits = [plainCommit "1" 1, plainCommit "2" 201] := by
  have hrun : (Runs.runSteps (Lake.step "" plainFacts) emptyLake twoGenerations).any
      (fun lake => lake.latestCommits "" = [plainCommit "1" 1, plainCommit "2" 201]) = true := by
    decide +kernel
  obtain ⟨lake, hlake, hcommits⟩ := (Option.any_eq_true _ _).mp hrun
  have hreached := plainRun_reachable hlake
  have hlatest := of_decide_eq_true hcommits
  rw [latestCommits] at hlatest
  split at hlatest
  · rename_i commits hrelation
    exact ⟨lake, commits, hreached, hrelation, hlatest⟩
  · cases hlatest

theorem committed_generation_two : ∃ (lake : Lake Nat Unit) (commits : List (Part Nat)),
    lake.relation "" .commits = .ok commits ∧
      (committedRows commits).filter (·.rootSnapshotId = "2") = [plainCommit "2" 201] ∧
        ∀ name, ((current (lake.tables name).versions).map (·.filePath)).count
          (fileUri "" name "2") = 1 := by
  obtain ⟨lake, commits, hreached, hcommits, hrows⟩ := twoGenerations_reached
  have hrow : plainCommit "2" 201 ∈ committedRows commits := by
    rw [hrows]
    exact List.mem_cons_of_mem _ List.mem_cons_self
  have hcomplete := committed_generation hreached hcommits hrow
  exact ⟨lake, commits, hcommits, hcomplete.1, hcomplete.2.1⟩

theorem publication_all_or_nothing_two : ∃ lake : Lake Nat Unit,
    "2" ∈ lake.commitLog.map (·.rootSnapshotId) ∧ AllOrNothing "" lake "2" := by
  obtain ⟨lake, commits, hreached, hcommits, hrows⟩ := twoGenerations_reached
  refine ⟨lake, List.mem_map.mpr ⟨plainCommit "2" 201, ?_, rfl⟩,
    publication_all_or_nothing hreached "2"⟩
  have hrow : plainCommit "2" 201 ∈ committedRows commits := by
    rw [hrows]
    exact List.mem_cons_of_mem _ List.mem_cons_self
  rw [Lake.commitLog, ← relation_rows hcommits]
  exact (List.mem_filter.mp hrow).1

end RootLake.Iceberg

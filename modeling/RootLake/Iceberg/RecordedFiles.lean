/-
  RootLake/Iceberg/RecordedFiles.lean
  ===================================
  **The files that a generation records, and those of the origins of its paths.**

  An extension compares the files that the origins of its paths have recorded with its own plans.
  What it records itself a worker reads again later.  The files of a generation fit its path
  sources when they and those of all origins have the plans of one run; no task of a publication
  takes that away.
-/
import RootLake.Iceberg.PublicationHistory
import RootLake.Index.OriginalFiles

namespace RootLake.Iceberg

open RootLake.AppendLog RootLake.ExceptRules RootLake.Iceberg.Lake RootLake.Query
open RootLake.Index (AgreesWith CommittedFileRow ExtensionRun FileIdentity RootIndexFilePlan
  originRows validateOrigins validateOrigins_ok_iff)

variable {Metadata Schema : Type} {root : String} {facts : PartFacts Metadata Schema}
variable {lake next : Lake Metadata Schema} {generation : String} {name : TableName}

/-! ### What a run records of its files -/

/-- The input files of a run: the resolver returns at least one, and none twice. -/
structure InputFiles where
  localFileSize : String → UInt64
  localMtimeNS : String → Int
  plans : List RootIndexFilePlan
  plans_ne_nil : plans ≠ []
  paths_nodup : (plans.map RootIndexFilePlan.path).Nodup

/-- What a run finds when it begins: its input files, and a database that it asks for distinct rows
    in the order of their event bases. -/
structure Surroundings where
  inputs : InputFiles
  answer : List FileIdentity → List FileIdentity
  distinct : ∀ rows, SelectDistinct id (fun file : FileIdentity => file.eventBase.toNat) rows
    (answer rows)

/-- The run of a request over its input files. -/
def extensionRun (inputs : InputFiles) (request : IndexRequest) : ExtensionRun where
  datasetId := request.datasetId
  treeName := request.treeName
  localFileSize := inputs.localFileSize
  localMtimeNS := inputs.localMtimeNS
  plans := inputs.plans

/-- A planned file as a worker finds it, and the number of its paths. -/
structure IndexedFile where
  plan : RootIndexFilePlan
  fileSize : UInt64
  mtimeNs : Int
  entries : UInt64
  treeName : String
  pathCount : Nat
  deriving DecidableEq, Repr

/-- The files that the rows of a generation are of. A file is drawn once. -/
structure Recording where
  generation : String
  datasetId : String
  files : List IndexedFile
  once : (files.map fun file => file.plan.path).Nodup

/-- The event base is the plan's, the rest is read when the file is indexed. -/
def IndexedFile.identity (file : IndexedFile) : FileIdentity where
  rootUri := file.plan.path
  fileSize := file.fileSize
  mtimeNs := file.mtimeNs
  eventBase := file.plan.eventBase
  totalEntries := file.entries
  treeName := file.treeName

/-- The files rows of a generation, one for each file and path. -/
def Recording.rows (recording : Recording) : List CommittedFileRow :=
  recording.files.flatMap fun file => List.replicate file.pathCount
    ⟨recording.generation, recording.datasetId, file.identity⟩

/-- The file is as it was when the run compared it with the origins. -/
structure Unchanged (run : ExtensionRun) (file : IndexedFile) : Prop where
  planned : file.plan ∈ run.plans
  fileSize : file.fileSize = run.localFileSize file.plan.path
  mtimeNs : file.mtimeNs = run.localMtimeNS file.plan.path
  entries : file.entries = file.plan.entries

instance (run : ExtensionRun) (file : IndexedFile) : Decidable (Unchanged run file) :=
  decidable_of_iff (file.plan ∈ run.plans ∧ file.fileSize = run.localFileSize file.plan.path ∧
      file.mtimeNs = run.localMtimeNS file.plan.path ∧ file.entries = file.plan.entries)
    ⟨fun ⟨hplanned, hsize, hmtime, hentries⟩ => ⟨hplanned, hsize, hmtime, hentries⟩,
      fun h => ⟨h.planned, h.fileSize, h.mtimeNs, h.entries⟩⟩

/-- Two records of a file number its events alike. -/
structure RecordedAlike (file other : FileIdentity) : Prop where
  eventBase : file.eventBase = other.eventBase
  totalEntries : file.totalEntries = other.totalEntries
  fileSize : file.fileSize = other.fileSize
  mtimeNs : file.mtimeNs = other.mtimeNs

/-- A run has a plan for the recorded file. -/
structure PlannedBy (run : ExtensionRun) (plan : RootIndexFilePlan) (file : FileIdentity) :
    Prop where
  planned : plan ∈ run.plans
  path : file.rootUri = plan.path
  fileSize : file.fileSize = run.localFileSize plan.path
  mtimeNs : file.mtimeNs = run.localMtimeNS plan.path
  eventBase : file.eventBase = plan.eventBase
  entries : file.totalEntries = plan.entries

def Planned (run : ExtensionRun) (file : FileIdentity) : Prop := ∃ plan, PlannedBy run plan file

theorem Recording.mem_rows {recording : Recording} {row : CommittedFileRow}
    (h : row ∈ recording.rows) : row.snapshotId = recording.generation ∧
      row.datasetId = recording.datasetId ∧
      ∃ file ∈ recording.files, row.identity = file.identity := by
  obtain ⟨file, hfile, hrow⟩ := List.mem_flatMap.mp h
  rw [List.eq_of_mem_replicate hrow]
  exact ⟨rfl, rfl, file, hfile, rfl⟩

/-- A file is recorded in one way. -/
theorem Recording.identity_eq {recording : Recording} {row other : CommittedFileRow}
    (hrow : row ∈ recording.rows) (hother : other ∈ recording.rows)
    (huri : row.identity.rootUri = other.identity.rootUri) : row.identity = other.identity := by
  obtain ⟨-, -, file, hfile, hidentity⟩ := mem_rows hrow
  obtain ⟨-, -, same, hsame, hidentity'⟩ := mem_rows hother
  rw [hidentity, hidentity'] at huri
  rw [hidentity, hidentity', List.inj_on_of_nodup_map recording.once hfile hsame huri]

/-- An unchanged file is recorded as planned. -/
theorem Unchanged.planned_identity {run : ExtensionRun} {file : IndexedFile}
    (h : Unchanged run file) : Planned run file.identity :=
  ⟨file.plan, h.planned, rfl, h.fileSize, h.mtimeNs, rfl, h.entries⟩

/-- So is one that the comparison has accepted. -/
theorem Planned.of_agrees {run : ExtensionRun} {plan : RootIndexFilePlan} {file : FileIdentity}
    (hplan : plan ∈ run.plans) (h : run.Agrees plan file) : Planned run file :=
  ⟨plan, hplan, h.path, h.fileSize, h.mtimeNs, h.eventBase, h.entries⟩

/-- Files with one path that have plans are recorded alike. -/
theorem Planned.recordedAlike {run : ExtensionRun} {file other : FileIdentity}
    (hpaths : (run.plans.map RootIndexFilePlan.path).Nodup) (hfile : Planned run file)
    (hother : Planned run other) (huri : file.rootUri = other.rootUri) :
    RecordedAlike file other := by
  obtain ⟨plan, hfile⟩ := hfile
  obtain ⟨same, hother⟩ := hother
  have hpath : plan.path = same.path := hfile.path.symm.trans (huri.trans hother.path)
  obtain rfl := List.inj_on_of_nodup_map hpaths hfile.planned hother.planned hpath
  exact ⟨hfile.eventBase.trans hother.eventBase.symm, hfile.entries.trans hother.entries.symm,
    hfile.fileSize.trans hother.fileSize.symm, hfile.mtimeNs.trans hother.mtimeNs.symm⟩

/-! ### Files parts -/

section Parts

variable (recorded : Metadata → Recording)

/-- The rows of a part of the files table. -/
def partRows (part : Part Metadata) : List CommittedFileRow :=
  part.contents.flatMap fun content => (recorded content).rows

/-- The part is one of the generation. -/
def IsPartOf (generation : String) (part : Part Metadata) : Prop :=
  ∀ content ∈ part.contents, (recorded content).generation = generation

instance (part : Part Metadata) : Decidable (IsPartOf recorded generation part) :=
  inferInstanceAs (Decidable (∀ content ∈ part.contents, _))

/-- The files of the part are as the run compared them with the origins. -/
def IsUnchanged (run : ExtensionRun) (part : Part Metadata) : Prop :=
  ∀ content ∈ part.contents, ∀ file ∈ (recorded content).files, Unchanged run file

instance (run : ExtensionRun) (part : Part Metadata) :
    Decidable (IsUnchanged recorded run part) :=
  inferInstanceAs (Decidable (∀ content ∈ part.contents, ∀ file ∈ (recorded content).files, _))

/-- The extension of a generation with the comparison that the source makes. -/
def extensionFacts (facts : PartFacts Metadata Schema) (surroundings : Surroundings) :
    PartFacts Metadata Schema :=
  { facts with
    validateOriginalFiles := fun files request origins =>
      let run := extensionRun surroundings.inputs request
      validateOrigins run (fun origin => surroundings.answer (originRows run
        (files.flatMap fun content => (recorded content).rows) origin)) origins }

variable {recorded}

theorem IsPartOf.snapshotId {part : Part Metadata} (h : IsPartOf recorded generation part)
    {row : CommittedFileRow} (hrow : row ∈ partRows recorded part) :
    row.snapshotId = generation := by
  obtain ⟨content, hcontent, hrow⟩ := List.mem_flatMap.mp hrow
  rw [← h content hcontent]
  exact (Recording.mem_rows hrow).1

/-- A part has one recording. -/
theorem mem_partRows {part : Part Metadata} {row : CommittedFileRow}
    (hrow : row ∈ partRows recorded part) : ∃ content, part = .metadata content ∧
      row ∈ (recorded content).rows := by
  obtain ⟨content, hcontent, hmem⟩ := List.mem_flatMap.mp hrow
  cases part with
  | metadata held =>
    rw [List.mem_singleton.mp hcontent] at hmem
    exact ⟨held, rfl, hmem⟩
  | pathSources rows => exact absurd hcontent List.not_mem_nil
  | snapshots rows => exact absurd hcontent List.not_mem_nil
  | commits rows => exact absurd hcontent List.not_mem_nil

theorem partRows_alike {part : Part Metadata} {row other : CommittedFileRow}
    (hrow : row ∈ partRows recorded part) (hother : other ∈ partRows recorded part) :
    row.datasetId = other.datasetId ∧
      (row.identity.rootUri = other.identity.rootUri → row.identity = other.identity) := by
  obtain ⟨content, rfl, hmem⟩ := mem_partRows hrow
  obtain ⟨same, heq, hmem'⟩ := mem_partRows hother
  cases heq
  refine ⟨?_, Recording.identity_eq hmem hmem'⟩
  rw [(Recording.mem_rows hmem).2.1, (Recording.mem_rows hmem').2.1]

theorem IsUnchanged.planned {run : ExtensionRun} {part : Part Metadata}
    (h : IsUnchanged recorded run part) {row : CommittedFileRow}
    (hrow : row ∈ partRows recorded part) : Planned run row.identity := by
  obtain ⟨content, hcontent, hrow⟩ := List.mem_flatMap.mp hrow
  obtain ⟨-, -, file, hfile, hidentity⟩ := Recording.mem_rows hrow
  rw [hidentity]
  exact (h content hcontent file hfile).planned_identity

end Parts

/-! ### Origins that have recorded the files alike -/

section Aligned

variable (root) (recorded : Metadata → Recording)

/-- The path sources of a generation: the part in the data directory, else the staged one. -/
def lineagePart (lake : Lake Metadata Schema) (generation : String) : Option (Part Metadata) :=
  (lake.placed root .pathSources generation).or (lake.staging generation .pathSources)

/-- The files part of the origin has files with plans of the run only. -/
def OriginPlanned (lake : Lake Metadata Schema) (run : ExtensionRun) (origin : String) : Prop :=
  ∃ part, lake.placed root .files origin = some part ∧
    ∀ row ∈ partRows recorded part, Planned run row.identity

/-- The files part of a generation fits its path sources: all paths are its own, or its files and
    those of its origins have plans of one run. -/
def Aligned (lake : Lake Metadata Schema) (generation : String) (part lineage : Part Metadata) :
    Prop :=
  (∀ row ∈ lineage.pathRows, row.physicalSnapshotId = generation) ∨
    ∃ run : ExtensionRun, (run.plans.map RootIndexFilePlan.path).Nodup ∧
      (∀ row ∈ partRows recorded part, Planned run row.identity) ∧
      ∀ row ∈ lineage.pathRows, row.physicalSnapshotId = generation ∨
        OriginPlanned root recorded lake run row.physicalSnapshotId

/-- The files part fits the path sources that its generation has. -/
def Fits (lake : Lake Metadata Schema) (generation : String) (part : Part Metadata) : Prop :=
  ∃ lineage, lineagePart root lake generation = some lineage ∧
    Aligned root recorded lake generation part lineage

/-- The invariant of the files parts. -/
structure FilesAligned (lake : Lake Metadata Schema) : Prop where
  staged : ∀ generation part, lake.staging generation .files = some part →
    IsPartOf recorded generation part
  placed : ∀ generation part, lake.placed root .files generation = some part →
    IsPartOf recorded generation part ∧ Fits root recorded lake generation part
  filesFirst : ∀ generation, (lake.placed root .pathSources generation).isSome →
    (lake.placed root .files generation).isSome
  publisher : ∀ publisher, lake.publisher = some publisher →
    lake.placed root .files publisher.generation = none →
      ∀ part, lake.staging publisher.generation .files = some part →
        Fits root recorded lake publisher.generation part

variable {root} {recorded}

theorem Aligned.extends {part lineage : Part Metadata}
    (h : Aligned root recorded lake generation part lineage) (hext : Extends root lake next) :
    Aligned root recorded next generation part lineage := by
  refine h.imp_right fun ⟨run, hpaths, hpart, horigins⟩ => ⟨run, hpaths, hpart, fun row hrow => ?_⟩
  refine (horigins row hrow).imp_right fun ⟨origin, hplaced, hrows⟩ => ?_
  exact ⟨origin, hext.placed hplaced, hrows⟩

theorem Fits.of_lineage {part : Part Metadata} (h : Fits root recorded lake generation part)
    (hext : Extends root lake next)
    (hlineage : ∀ lineage, lineagePart root lake generation = some lineage →
      lineagePart root next generation = some lineage) :
    Fits root recorded next generation part := by
  obtain ⟨lineage, hsome, haligned⟩ := h
  exact ⟨lineage, hlineage lineage hsome, haligned.extends hext⟩

/-- A step that changes no table and loses no path sources. -/
theorem FilesAligned.of_sameTables (h : FilesAligned root recorded lake)
    (hsame : SameTables lake next)
    (hstaged : ∀ generation part, next.staging generation .files = some part →
      IsPartOf recorded generation part)
    (hlineage : ∀ generation lineage, lineagePart root lake generation = some lineage →
      lineagePart root next generation = some lineage)
    (hpublisher : ∀ publisher, next.publisher = some publisher →
      next.placed root .files publisher.generation = none →
        ∀ part, next.staging publisher.generation .files = some part →
          Fits root recorded next publisher.generation part) :
    FilesAligned root recorded next where
  staged := hstaged
  placed generation part hpart := by
    rw [hsame.placed] at hpart
    exact (h.placed generation part hpart).imp_right (·.of_lineage hsame.extends (hlineage _))
  filesFirst generation hplaced := by
    rw [hsame.placed] at hplaced ⊢
    exact h.filesFirst generation hplaced
  publisher := hpublisher

/-- The end of a run. -/
theorem FilesAligned.idle (h : FilesAligned root recorded lake) :
    FilesAligned root recorded { lake with publisher := none } :=
  h.of_sameTables (.of_tables_eq rfl) h.staged (fun _ _ hlineage => hlineage)
    fun _ hpublisher => (by cases hpublisher)

theorem lineagePart_eq_some {lineage : Part Metadata} :
    lineagePart root lake generation = some lineage ↔
      lake.placed root .pathSources generation = some lineage ∨
        (lake.placed root .pathSources generation = none ∧
          lake.staging generation .pathSources = some lineage) :=
  Option.or_eq_some_iff

end Aligned

/-! ### Tasks -/

section Tasks

variable {recorded : Metadata → Recording} {publisher : Publisher} {choice : Choice} {task : Task}
variable {results : List TableCommit}

theorem setPart_staging_of_ne {part : Option (Part Metadata)} {other : String} {table : TableName}
    (htable : table ≠ name) :
    (lake.setPart generation name part).staging other table = lake.staging other table := by
  by_cases hother : other = generation
  · subst hother
    simp only [setPart, Function.update_self, Function.update_of_ne htable]
  · simp only [setPart, Function.update_of_ne hother]

/-- A run stages the last two parts only. -/
theorem perform_staging_of_ne
    (h : lake.perform root facts publisher choice task = .ok (next, results)) {other : String}
    {table : TableName} (hsnapshots : table ≠ .snapshots) (hcommits : table ≠ .commits) :
    next.staging other table = lake.staging other table := by
  cases task with
  | openCatalog =>
    obtain ⟨rfl, -⟩ := Prod.mk.inj (Except.ok.inj h)
    rfl
  | place name =>
    obtain ⟨after, hplace, hrest⟩ := bind_ok_iff.mp h
    obtain ⟨rfl, -⟩ := Prod.mk.inj (Except.ok.inj hrest)
    rw [place_staging hplace]
  | create name =>
    obtain ⟨after, hcreate, hrest⟩ := bind_ok_iff.mp h
    obtain ⟨rfl, -⟩ := Prod.mk.inj (Except.ok.inj hrest)
    rw [(getOrCreateTable_spec hcreate).2]
  | append name =>
    obtain ⟨⟨after, commit⟩, happend, hrest⟩ := bind_ok_iff.mp h
    obtain ⟨rfl, -⟩ := Prod.mk.inj (Except.ok.inj hrest)
    rw [appendFile_staging happend]
  | writeSnapshots =>
    obtain ⟨after, hwrite, hrest⟩ := bind_ok_iff.mp h
    obtain ⟨rfl, -⟩ := Prod.mk.inj (Except.ok.inj hrest)
    rcases writeSnapshots_spec hwrite with rfl | rfl
    · rfl
    · exact setPart_staging_of_ne hsnapshots
  | writeCommit =>
    obtain ⟨after, hwrite, hrest⟩ := bind_ok_iff.mp h
    obtain ⟨rfl, -⟩ := Prod.mk.inj (Except.ok.inj hrest)
    rcases writeCommit_spec hwrite with rfl | rfl
    · rfl
    · exact setPart_staging_of_ne hcommits

/-- What is in a data directory afterwards was there, or is the staged part of the run. -/
theorem perform_placed
    (h : lake.perform root facts publisher choice task = .ok (next, results))
    {other : String} {table : TableName} {part : Part Metadata}
    (hpart : next.placed root table other = some part) :
    lake.placed root table other = some part ∨ (task = .place table ∧
      other = publisher.generation ∧ lake.staging other table = some part) := by
  cases task with
  | openCatalog =>
    obtain ⟨rfl, -⟩ := Prod.mk.inj (Except.ok.inj h)
    exact .inl hpart
  | place name =>
    obtain ⟨after, hplace, hrest⟩ := bind_ok_iff.mp h
    obtain ⟨rfl, -⟩ := Prod.mk.inj (Except.ok.inj hrest)
    refine (place_placed hplace hpart).imp_right fun ⟨hother, htable, hstaged⟩ => ?_
    subst hother htable
    exact ⟨rfl, rfl, hstaged⟩
  | create name =>
    obtain ⟨after, hcreate, hrest⟩ := bind_ok_iff.mp h
    obtain ⟨rfl, -⟩ := Prod.mk.inj (Except.ok.inj hrest)
    rw [(getOrCreateTable_spec hcreate).1.placed] at hpart
    exact .inl hpart
  | append name =>
    obtain ⟨⟨after, commit⟩, happend, hrest⟩ := bind_ok_iff.mp h
    obtain ⟨rfl, -⟩ := Prod.mk.inj (Except.ok.inj hrest)
    rw [appendFile_placed happend] at hpart
    exact .inl hpart
  | writeSnapshots =>
    obtain ⟨after, hwrite, hrest⟩ := bind_ok_iff.mp h
    obtain ⟨rfl, -⟩ := Prod.mk.inj (Except.ok.inj hrest)
    rcases writeSnapshots_spec hwrite with rfl | rfl <;> exact .inl hpart
  | writeCommit =>
    obtain ⟨after, hwrite, hrest⟩ := bind_ok_iff.mp h
    obtain ⟨rfl, -⟩ := Prod.mk.inj (Except.ok.inj hrest)
    rcases writeCommit_spec hwrite with rfl | rfl <;> exact .inl hpart

/-- A run keeps the path sources of every generation. -/
theorem perform_lineagePart
    (h : lake.perform root facts publisher choice task = .ok (next, results))
    (hext : Extends root lake next) {lineage : Part Metadata}
    (hlineage : lineagePart root lake generation = some lineage) :
    lineagePart root next generation = some lineage := by
  have hstaging : next.staging generation .pathSources = lake.staging generation .pathSources :=
    perform_staging_of_ne h (by decide) (by decide)
  rw [lineagePart_eq_some] at hlineage ⊢
  rcases hlineage with hplaced | ⟨hnone, hstaged⟩
  · exact .inl (hext.placed hplaced)
  · cases hplaced : next.placed root .pathSources generation with
    | none => exact .inr ⟨rfl, hstaging.trans hstaged⟩
    | some part =>
      rcases perform_placed h hplaced with hold | ⟨-, -, hnew⟩
      · rw [hnone] at hold
        cases hold
      · exact .inl (congrArg some (Option.some.inj (hnew.symm.trans hstaged)))

/-- **One task of a run.** -/
theorem FilesAligned.perform (h : FilesAligned root recorded lake)
    (hinvariant : Invariant root lake) (hpublisher : lake.publisher = some publisher)
    {rest : List Task} (htodo : publisher.todo = task :: rest) (hallows : lake.Allows choice task)
    (hperform : lake.perform root facts publisher choice task = .ok (next, results)) :
    FilesAligned root recorded
      { next with publisher := some { publisher with results, todo := rest } } := by
  have hext : Extends root lake next := (perform_keeps hallows hperform).toExtends
  have hsame : SameTables next
      { next with publisher := some { publisher with results, todo := rest } } := .of_tables_eq rfl
  have hafter := ((perform_keeps hallows hperform).trans (.of_sameTables hsame)).toExtends
  -- what fits the path sources of a generation fits them afterwards
  have hkept : ∀ {generation : String} {part : Part Metadata},
      Fits root recorded lake generation part → Fits root recorded
        { next with publisher := some { publisher with results, todo := rest } } generation part :=
    fun hfits => hfits.of_lineage hafter fun _ => perform_lineagePart hperform hext
  refine ⟨fun generation part hpart => ?_, fun generation part hpart => ?_,
    fun generation hsome => ?_, ?_⟩
  · exact h.staged generation part
      ((perform_staging_of_ne hperform (by decide) (by decide)).symm.trans hpart)
  · rcases perform_placed hperform hpart with hold | ⟨rfl, rfl, hstaged⟩
    · exact (h.placed generation part hold).imp_right hkept
    · cases hnone : lake.placed root .files publisher.generation with
      | some held =>
        obtain rfl := Option.some.inj ((hext.placed hnone).symm.trans hpart)
        exact (h.placed _ held hnone).imp_right hkept
      | none =>
        exact ⟨h.staged _ part hstaged, hkept (h.publisher publisher hpublisher hnone part hstaged)⟩
  · obtain ⟨part, hpart⟩ := Option.isSome_iff_exists.mp hsome
    have hfiles : (lake.placed root .files generation).isSome := by
      rcases perform_placed hperform hpart with hold | ⟨rfl, rfl, -⟩
      · exact h.filesFirst generation (Option.isSome_iff_exists.mpr ⟨part, hold⟩)
      · -- the files part is appended ahead of the path sources
        obtain ⟨done, hdone, hprogress⟩ := (hinvariant.publishing publisher hpublisher).progress
        rw [htodo] at hdone
        have hmem : TableName.files ∈ appended done := by
          rw [done_eq hdone]
          decide
        obtain ⟨commit, -, hcovers⟩ := hprogress.covers hmem
        obtain ⟨held, hheld⟩ :=
          hinvariant.consistent.placed (hinvariant.consistent.listed hcovers.own)
        exact Option.isSome_iff_exists.mpr ⟨held, hheld⟩
    obtain ⟨held, hheld⟩ := Option.isSome_iff_exists.mp hfiles
    exact Option.isSome_iff_exists.mpr ⟨held, hext.placed hheld⟩
  · intro after hnew hnone part hpart
    obtain rfl := Option.some.inj hnew
    have hnone' : lake.placed root .files publisher.generation = none := by
      cases hheld : lake.placed root .files publisher.generation with
      | none => rfl
      | some held =>
        rw [← hnone]
        exact (hext.placed hheld).symm
    have hstaged : lake.staging publisher.generation .files = some part :=
      (perform_staging_of_ne hperform (by decide) (by decide)).symm.trans hpart
    exact hkept (h.publisher publisher hpublisher hnone' part hstaged)

end Tasks

/-! ### The beginning of a run -/

section Begin

variable {recorded : Metadata → Recording} {surroundings : Surroundings}
variable {request : IndexRequest} {latest : Option CommitRow}

/-- An origin that a run accepts has files with plans of the run only. -/
theorem FilesAligned.originPlanned (h : FilesAligned root recorded lake)
    (hconsistent : Consistent root lake) {run : ExtensionRun} (hplans : run.plans ≠ [])
    {parts : List (Part Metadata)} (hparts : lake.relation root .files = .ok parts)
    {origin : String} (hcommitted : lake.Committed root origin)
    (hagrees : AgreesWith run (surroundings.answer (originRows run
      ((parts.flatMap Part.contents).flatMap fun content => (recorded content).rows) origin))) :
    OriginPlanned root recorded lake run origin := by
  have hlisted := hconsistent.complete origin hcommitted .files
  obtain ⟨part, hpart⟩ := hconsistent.placed hlisted
  have hof := (h.placed origin part hpart).1
  rw [List.flatMap_assoc] at hagrees
  have hlog : ∀ row, (row ∈ parts.flatMap (partRows recorded) ∧ row.snapshotId = origin) ↔
      row ∈ partRows recorded part := by
    intro row
    rw [relation_ok hparts]
    constructor
    · rintro ⟨hrow, hsnapshot⟩
      obtain ⟨held, hheld, hrow⟩ := List.mem_flatMap.mp hrow
      obtain ⟨file, hfile, hdata⟩ := List.mem_filterMap.mp hheld
      obtain ⟨other, placed, huri, hplaced⟩ := hconsistent.files .files file hfile
      rw [huri, ← Lake.placed, hplaced] at hdata
      obtain rfl := Option.some.inj hdata
      obtain rfl : other = origin :=
        ((h.placed other placed hplaced).1.snapshotId hrow).symm.trans hsnapshot
      obtain rfl := Option.some.inj (hplaced.symm.trans hpart)
      exact hrow
    · intro hrow
      obtain ⟨file, hfile, huri⟩ := List.mem_map.mp hlisted
      refine ⟨List.mem_flatMap.mpr ⟨part, List.mem_filterMap.mpr ⟨file, hfile, ?_⟩, hrow⟩,
        hof.snapshotId hrow⟩
      rw [huri, ← Lake.placed, hpart]
  have horigin : ∀ identity, identity ∈ originRows run (parts.flatMap (partRows recorded)) origin ↔
      ∃ row ∈ partRows recorded part, row.datasetId = run.datasetId ∧ row.identity = identity := by
    intro identity
    simp only [originRows, List.mem_map, List.mem_filter, Bool.and_eq_true, beq_iff_eq]
    constructor
    · rintro ⟨row, ⟨hrow, hsnapshot, hdataset⟩, rfl⟩
      exact ⟨row, (hlog row).mp ⟨hrow, hsnapshot⟩, hdataset, rfl⟩
    · rintro ⟨row, hrow, hdataset, rfl⟩
      obtain ⟨hmem, hsnapshot⟩ := (hlog row).mpr hrow
      exact ⟨row, ⟨hmem, hsnapshot, hdataset⟩, rfl⟩
  have hdistinct :=
    surroundings.distinct (originRows run (parts.flatMap (partRows recorded)) origin)
  -- the run has plans, so one of the rows is of its dataset, and with it all rows of the part
  obtain ⟨plan, hplan⟩ := List.exists_mem_of_ne_nil _ hplans
  obtain ⟨file, hfile, -⟩ := exists_right_of_mem hagrees plan hplan
  obtain ⟨first, hfirst, hdataset, -⟩ := (horigin file).mp (hdistinct.mem file hfile)
  refine ⟨part, hpart, fun row hrow => ?_⟩
  have hmem := (horigin row.identity).mpr
    ⟨row, hrow, (partRows_alike hrow hfirst).1.trans hdataset, rfl⟩
  have hanswered := hdistinct.covers _ hmem
  rw [List.map_id] at hanswered
  obtain ⟨plan, hplan, hagree⟩ := exists_left_of_mem hagrees _ hanswered
  exact Planned.of_agrees hplan hagree

/-- The path sources that are staged afterwards have the parent. -/
theorem writePaths_lineage {parent : String} {paths : List (String × String)}
    (h : lake.writePaths generation parent paths = .ok next) :
    ∃ lineage, next.staging generation .pathSources = some lineage ∧
      (∀ row ∈ lineage.pathRows, row.parentRootSnapshotId = parent) ∧
      (next = lake ∨ (lake.staging generation .pathSources = none ∧
        next = lake.setPart generation .pathSources (some lineage))) := by
  rw [writePaths] at h
  split at h
  · rename_i part hpart
    split at h
    · rename_i hparent
      obtain rfl := Except.ok.inj h
      refine ⟨part, hpart, fun row hrow => ?_, .inl rfl⟩
      have hmem := List.mem_dedup.mpr (List.mem_map_of_mem (f := PathRow.parentRootSnapshotId) hrow)
      rw [hparent] at hmem
      exact List.mem_singleton.mp hmem
    · cases h
  · rename_i hnone
    split at h
    · cases h
    · obtain rfl := Except.ok.inj h
      refine ⟨_, ?_, fun row hrow => ?_, .inr ⟨hnone, rfl⟩⟩
      · simp only [setPart, Function.update_self]
      · obtain ⟨path, -, rfl⟩ := List.mem_map.mp hrow
        rfl

/-- An extension has compared its files with those of the origins of its paths. -/
theorem extendedPaths_validated {row : CommitRow} {paths : List (String × String)}
    (h : lake.extendedPaths root facts request row = .ok paths) :
    ∃ files, lake.relation root .files = .ok files ∧
      facts.validateOriginalFiles (files.flatMap Part.contents) request
        (paths.map Prod.snd).dedup = .ok () := by
  unfold Lake.extendedPaths at h
  split at h
  · cases h
  · obtain ⟨previous, -, h⟩ := bind_ok_iff.mp h
    obtain ⟨files, hfiles, h⟩ := bind_ok_iff.mp h
    obtain ⟨_, hvalid, h⟩ := bind_ok_iff.mp h
    split at h
    · cases h
    · obtain rfl := Except.ok.inj h
      exact ⟨files, hfiles, hvalid⟩

/-- What a preparation that succeeds has staged: the path sources of a run that extends nothing, or
    those of an extension that has been validated. -/
theorem preparePathSources_lineage
    (h : lake.preparePathSources root facts request latest = .ok next) :
    (next = lake ∧ ∃ row ∈ latest, row.rootSnapshotId = request.generation) ∨
      ∃ lineage, next.staging request.generation .pathSources = some lineage ∧
        (next = lake ∨ (lake.staging request.generation .pathSources = none ∧
          next = lake.setPart request.generation .pathSources (some lineage))) ∧
        ((∀ row ∈ lineage.pathRows, row.parentRootSnapshotId = "") ∨
          ∃ parent previous, latest = some parent ∧ request.extend = true ∧
            parent.rootSnapshotId ≠ request.generation ∧
            lake.extendedPaths root facts request parent = .ok previous ∧
            ∀ row ∈ lineage.pathRows, row.parentRootSnapshotId = parent.rootSnapshotId) := by
  unfold Lake.preparePathSources at h
  split at h
  · rename_i hextend
    split at h
    · cases h
    · obtain ⟨-, -, h⟩ := bind_ok_iff.mp h
      cases latest with
      | none => cases h
      | some row =>
        dsimp only at h
        split at h
        · rename_i hgeneration
          split at h
          · cases h
          · exact .inl ⟨(Except.ok.inj h).symm, row, rfl, hgeneration⟩
        · rename_i hother
          obtain ⟨previous, hextended, h⟩ := bind_ok_iff.mp h
          obtain ⟨paths, -, hwrite⟩ := bind_ok_iff.mp h
          obtain ⟨lineage, hstaged, hparent, hnext⟩ := writePaths_lineage hwrite
          exact .inr ⟨lineage, hstaged, hnext,
            .inr ⟨row, previous, rfl, hextend, hother, hextended, hparent⟩⟩
  · obtain ⟨paths, -, hwrite⟩ := bind_ok_iff.mp h
    obtain ⟨lineage, hstaged, hparent, hnext⟩ := writePaths_lineage hwrite
    exact .inr ⟨lineage, hstaged, hnext, .inl hparent⟩

/-- The files that a run indexes as it found them fit the path sources that it has prepared. -/
theorem FilesAligned.aligned (h : FilesAligned root recorded lake)
    (hconsistent : Consistent root lake) (hlatest : IsLatest (lake.latestCommits root) latest)
    {lineage part : Part Metadata}
    (hlineage : Lineage root lake request.generation lineage.pathRows)
    (hprepared : (∀ row ∈ lineage.pathRows, row.parentRootSnapshotId = "") ∨
      ∃ parent previous, latest = some parent ∧ request.extend = true ∧
        parent.rootSnapshotId ≠ request.generation ∧
        lake.extendedPaths root (extensionFacts recorded facts surroundings) request parent =
          .ok previous ∧
        ∀ row ∈ lineage.pathRows, row.parentRootSnapshotId = parent.rootSnapshotId)
    (hunchanged : request.extend = true →
      (∀ row ∈ latest, row.rootSnapshotId ≠ request.generation) →
        IsUnchanged recorded (extensionRun surroundings.inputs request) part) :
    Aligned root recorded lake request.generation part lineage := by
  obtain ⟨parent, hparents, hlineageParent⟩ := hlineage.parent
  obtain ⟨first, hfirst⟩ := List.exists_mem_of_ne_nil _ hlineage.nonempty
  rcases hlineageParent with ⟨-, hown⟩ | hextension
  · exact .inl hown
  rcases hprepared with hempty | ⟨row, previous, hrow, hextend, hother, hextended, hsame⟩
  · -- nothing is committed without a name
    have hnameless : parent = "" := (hparents first hfirst).symm.trans (hempty first hfirst)
    have hlisted := hconsistent.complete _ hextension.committed .files
    exact absurd hnameless (hconsistent.named .files parent hlisted)
  · obtain rfl : parent = row.rootSnapshotId :=
      (hparents first hfirst).symm.trans (hsame first hfirst)
    subst hrow
    have hplanned := hunchanged hextend fun other hmem => by
      rw [← Option.mem_some_iff.mp hmem]
      exact hother
    obtain ⟨files, hfiles, hvalid⟩ := extendedPaths_validated hextended
    have hagrees := validateOrigins_ok_iff.mp hvalid
    obtain ⟨source, hsource, -, -, hprevious⟩ := hconsistent.recordedPaths hextension.committed
      (hconsistent.previousPaths hextension.committed (extendedPaths_spec hextended))
    obtain ⟨held, hheld, -, hinherits⟩ := hextension.keeps
    obtain rfl := Option.some.inj (hsource.symm.trans hheld)
    refine .inr ⟨extensionRun surroundings.inputs request, surroundings.inputs.paths_nodup,
      fun row hrow => hplanned.planned hrow, fun path hpath => ?_⟩
    refine (hinherits path hpath).imp_right fun ⟨inherited, hinherited, hpaths, horigin⟩ => ?_
    have hmem : path.physicalSnapshotId ∈ (previous.map Prod.snd).dedup :=
      List.mem_dedup.mpr (List.mem_map_of_mem (f := Prod.snd)
        ((hprevious path.logicalPath path.physicalSnapshotId).mpr
          ⟨inherited, hinherited, hpaths, horigin⟩))
    have hcommitted : lake.Committed root path.physicalSnapshotId := by
      rw [← horigin]
      rcases (hconsistent.parts _ .pathSources source (.inr hsource) :
        Lineage root lake _ source.pathRows).origins inherited hinherited with hself | hindexed
      · rw [hself]
        exact hextension.committed
      · exact hindexed.1
    exact h.originPlanned hconsistent surroundings.inputs.plans_ne_nil hfiles hcommitted
      (hagrees _ hmem)

/-- **The beginning of a run.** -/
theorem FilesAligned.begin (h : FilesAligned root recorded lake) (hinvariant : Invariant root lake)
    (hnamed : request.generation ≠ "") (hlatest : IsLatest (lake.latestCommits root) latest)
    (hunchanged : request.extend = true →
      (∀ row ∈ latest, row.rootSnapshotId ≠ request.generation) →
        ∀ part ∈ lake.staging request.generation .files,
          IsUnchanged recorded (extensionRun surroundings.inputs request) part) :
    FilesAligned root recorded
      (lake.begin root (extensionFacts recorded facts surroundings) request latest) := by
  have hnext : Invariant root
      (lake.begin root (extensionFacts recorded facts surroundings) request latest) :=
    hinvariant.begin hnamed hlatest
  have hsame : SameTables lake
      (lake.begin root (extensionFacts recorded facts surroundings) request latest) :=
    begin_sameTables hinvariant.consistent hlatest
  unfold Lake.begin at hnext hsame ⊢
  cases hprepare : lake.preparePathSources root (extensionFacts recorded facts surroundings) request
    latest with
  | error e => exact h
  | ok prepared =>
    rw [hprepare] at hnext hsame
    dsimp only at hnext hsame ⊢
    rcases preparePathSources_lineage hprepare with
      ⟨rfl, row, hrow, hgeneration⟩ | ⟨lineage, hstaged, hprepared, hparents⟩
    · refine h.of_sameTables hsame h.staged (fun _ _ hlineage => hlineage) ?_
      intro publisher hpublisher hnone
      -- the generation has been committed, so its files part is in place
      obtain rfl := Option.some.inj hpublisher
      rw [Option.mem_def.mp hrow] at hlatest
      have hcommitted := hinvariant.consistent.committed_of_mem hlatest.1
      obtain ⟨held, hheld⟩ :=
        hinvariant.consistent.placed (hinvariant.consistent.complete _ hcommitted .files)
      rw [hsame.placed, ← hgeneration, hheld] at hnone
      cases hnone
    · have hfiles : ∀ generation, prepared.staging generation .files =
          lake.staging generation .files := by
        intro generation
        rcases hprepared with rfl | ⟨-, rfl⟩
        · rfl
        · exact setPart_staging_of_ne (by decide)
      refine h.of_sameTables hsame (fun generation part hpart => ?_)
        (fun generation held hheld => ?_) ?_
      · exact h.staged generation part ((hfiles generation).symm.trans hpart)
      · rw [lineagePart_eq_some] at hheld ⊢
        rw [hsame.placed]
        refine hheld.imp_right fun ⟨hnone, hpart⟩ => ⟨hnone, ?_⟩
        rcases hprepared with rfl | ⟨hempty, rfl⟩
        · exact hpart
        · exact setPart_staging_of_none hempty hpart
      · intro publisher hpublisher hnone part hpart
        obtain rfl := Option.some.inj hpublisher
        rw [hsame.placed] at hnone
        have hunplaced : lake.placed root .pathSources request.generation = none := by
          cases hplaced : lake.placed root .pathSources request.generation with
          | none => rfl
          | some held =>
            have hsome := h.filesFirst _ (Option.isSome_iff_exists.mpr ⟨held, hplaced⟩)
            rw [hnone] at hsome
            cases hsome
        have hpart' : lake.staging request.generation .files = some part :=
          (hfiles _).symm.trans hpart
        have hlineage : Lineage root _ request.generation lineage.pathRows :=
          hnext.consistent.parts request.generation .pathSources lineage (.inl hstaged)
        have haligned := h.aligned hinvariant.consistent hlatest
          (hlineage.extends hsame.symm.extends) hparents fun hextend hother =>
            hunchanged hextend hother part hpart'
        refine ⟨lineage, lineagePart_eq_some.mpr (.inr ⟨?_, hstaged⟩),
          haligned.extends hsame.extends⟩
        rw [hsame.placed]
        exact hunplaced

end Begin

end RootLake.Iceberg

/-
  RootLake/Iceberg/PathLineage.lean
  =================================
  **The paths of a generation and the files behind them.**

  A generation that extends another takes over its paths with their origins and indexes its own
  paths over the same input files.  Rows of different origins are joined by the number of their
  event, so the origins must have recorded the files alike.  They have, as long as no file changes
  between its comparison with the origins and its indexing.
-/
import RootLake.Iceberg.RecordedFiles

namespace RootLake.Iceberg

open RootLake.AppendLog RootLake.Iceberg.Lake
open RootLake.Dataset (CatalogParameters)
open RootLake.Index (CommittedFileRow)

variable {Metadata Schema : Type} {root : String} {facts : PartFacts Metadata Schema}
variable {lake next : Lake Metadata Schema} {generation : String} {name : TableName}

/-! ### Runs -/

section System

variable (root) (facts) (recorded : Metadata → Recording)

/-- A run stages a files part of its own generation, and the staging directory of a generation is
    removed once it is committed. -/
def Stages (lake : Lake Metadata Schema) : Action Metadata → Prop
  | .build generation content =>
      ∀ metadata ∈ content .files, (recorded metadata).generation = generation
  | .discard generation _ => HasCommit root lake generation
  | .begin _ _ | .task _ | .interrupt => True

instance (lake : Lake Metadata Schema) (action : Action Metadata) :
    Decidable (Stages root recorded lake action) :=
  match action with
  | .build _ content => inferInstanceAs (Decidable (∀ metadata ∈ content .files, _))
  | .discard generation _ => inferInstanceAs (Decidable (HasCommit root lake generation))
  | .begin _ _ | .task _ | .interrupt => inferInstanceAs (Decidable True)

/-- A step of runs that compare their files as the source does. What a run finds may be different
    from step to step. -/
def extensionStep (lake : Lake Metadata Schema) (label : Surroundings × Action Metadata) :
    Option (Lake Metadata Schema) :=
  if Stages root recorded lake label.2 then
    lake.step root (extensionFacts recorded facts label.1) label.2
  else none

def extensions : Runs.System (Lake Metadata Schema) (Surroundings × Action Metadata) where
  init lake := lake = emptyLake
  step lake label next := extensionStep root facts recorded lake label = some next

/-- An extension records its files as they were when it compared them with the origins: what its
    workers find is staged ahead of its beginning here. -/
def KeepsInputs (lake : Lake Metadata Schema) : Surroundings × Action Metadata → Prop
  | (surroundings, .begin request latest) =>
      request.extend = true → (∀ row ∈ latest, row.rootSnapshotId ≠ request.generation) →
        ∀ part ∈ lake.staging request.generation .files,
          IsUnchanged recorded (extensionRun surroundings.inputs request) part
  | (_, .build _ _) | (_, .discard _ _) | (_, .task _) | (_, .interrupt) => True

instance (lake : Lake Metadata Schema) (label : Surroundings × Action Metadata) :
    Decidable (KeepsInputs recorded lake label) :=
  match label with
  | (_, .begin _ _) => inferInstanceAs (Decidable (_ → _ → ∀ part ∈ _, _))
  | (_, .build _ _) | (_, .discard _ _) | (_, .task _) | (_, .interrupt) =>
      inferInstanceAs (Decidable True)

variable {root} {facts} {recorded} {label : Surroundings × Action Metadata}

theorem extensionStep_some (h : extensionStep root facts recorded lake label = some next) :
    Stages root recorded lake label.2 ∧
      lake.step root (extensionFacts recorded facts label.1) label.2 = some next :=
  Option.ite_none_right_eq_some.mp h

theorem invariant_of_extensions {ok : Lake Metadata Schema → Surroundings × Action Metadata → Prop}
    (h : (extensions root facts recorded).Reached ok lake) : Invariant root lake := by
  apply Runs.System.Reached.invariant _ _ h
  · rintro _ rfl
    exact .idle consistent_empty rfl
  · intro _ _ _ hinvariant _ hstep
    exact hinvariant.step (extensionStep_some hstep).2

theorem filesAligned_empty :
    FilesAligned root recorded (emptyLake : Lake Metadata Schema) where
  staged _ _ hpart := by cases hpart
  placed _ _ hpart := by cases hpart
  filesFirst _ hplaced := by cases hplaced
  publisher _ hpublisher := by cases hpublisher

/-- A staging directory is filled. -/
theorem FilesAligned.build (h : FilesAligned root recorded lake) (hidle : lake.publisher = none)
    {content : TableName → Option Metadata}
    (hown : ∀ metadata ∈ content .files, (recorded metadata).generation = generation) :
    FilesAligned root recorded (lake.build generation content) := by
  have hpaths : ∀ other, (lake.build generation content).staging other .pathSources =
      lake.staging other .pathSources := by
    intro other
    by_cases hother : other = generation
    · subst hother
      simp only [Lake.build, Function.update_self]
      exact if_neg (by decide)
    · simp only [Lake.build, Function.update_of_ne hother]
  refine h.of_sameTables (.of_tables_eq rfl) (fun other part hpart => ?_)
    (fun other lineage hlineage => ?_) fun publisher hpublisher => ?_
  · by_cases hother : other = generation
    · subst hother
      simp only [Lake.build, Function.update_self] at hpart
      rw [if_pos (by decide)] at hpart
      obtain ⟨metadata, hmetadata, rfl⟩ := Option.map_eq_some_iff.mp hpart
      intro content hcontent
      rw [List.mem_singleton.mp hcontent]
      exact hown metadata hmetadata
    · simp only [Lake.build, Function.update_of_ne hother] at hpart
      exact h.staged other part hpart
  · rw [lineagePart, hpaths]
    exact hlineage
  · rw [show (lake.build generation content).publisher = none from hidle] at hpublisher
    cases hpublisher

/-- The staging directory of a committed generation is removed: all its parts are in place. -/
theorem FilesAligned.discard (h : FilesAligned root recorded lake)
    (hconsistent : Consistent root lake) (hidle : lake.publisher = none)
    (hcommit : HasCommit root lake generation) :
    FilesAligned root recorded (lake.setPart generation name none) := by
  refine h.of_sameTables (.of_tables_eq rfl) (fun other part hpart => ?_)
    (fun other lineage hlineage => ?_) fun publisher hpublisher => ?_
  · rcases setPart_staging hpart with hold | ⟨-, -, hnone⟩
    · exact h.staged other part hold
    · cases hnone
  · rw [lineagePart_eq_some] at hlineage ⊢
    refine hlineage.imp_right fun ⟨hnone, hpart⟩ => ⟨hnone, ?_⟩
    have hother : other ≠ generation := by
      rintro rfl
      obtain ⟨held, hheld⟩ := hconsistent.placed
        (hconsistent.complete other (hconsistent.hasCommit.mp hcommit) .pathSources)
      rw [hnone] at hheld
      cases hheld
    simp only [setPart, Function.update_of_ne hother]
    exact hpart
  · rw [show (lake.setPart generation name none).publisher = none from hidle] at hpublisher
    cases hpublisher

/-- **Every step that keeps its inputs keeps the files parts aligned.** -/
theorem FilesAligned.step (h : FilesAligned root recorded lake) (hinvariant : Invariant root lake)
    (hkeeps : KeepsInputs recorded lake label)
    (hstep : extensionStep root facts recorded lake label = some next) :
    FilesAligned root recorded next := by
  obtain ⟨hstages, hstep⟩ := extensionStep_some hstep
  obtain ⟨surroundings, action⟩ := label
  cases action with
  | build generation content =>
    obtain ⟨hidle, hnext⟩ := Option.ite_none_right_eq_some.mp hstep
    obtain rfl := Option.some.inj hnext
    exact h.build (Option.isNone_iff_eq_none.mp hidle) hstages
  | discard generation name =>
    obtain ⟨hidle, hnext⟩ := Option.ite_none_right_eq_some.mp hstep
    obtain rfl := Option.some.inj hnext
    exact h.discard hinvariant.consistent (Option.isNone_iff_eq_none.mp hidle) hstages
  | begin request latest =>
    obtain ⟨⟨-, hnamed, hlatest⟩, hnext⟩ := Option.ite_none_right_eq_some.mp hstep
    obtain rfl := Option.some.inj hnext
    exact h.begin hinvariant hnamed hlatest hkeeps
  | task choice =>
    simp only [Lake.step] at hstep
    split at hstep
    · cases hstep
    · rename_i publisher hpublisher
      obtain ⟨hallows, hnext⟩ := Option.ite_none_right_eq_some.mp hstep
      obtain rfl := Option.some.inj hnext
      unfold Lake.performNext
      split
      · exact h.idle
      · rename_i task rest htodo
        split
        · exact h.idle
        · rename_i after results hperform
          exact h.perform hinvariant hpublisher htodo (hallows task (by rw [htodo]; rfl)) hperform
  | interrupt =>
    obtain rfl := Option.some.inj hstep
    exact h.idle

theorem filesAligned_of_reached
    (h : (extensions root facts recorded).Reached (KeepsInputs recorded) lake) :
    FilesAligned root recorded lake := by
  apply Runs.System.Reached.invariant_of (fun _ hreached => invariant_of_extensions hreached) _ _ h
  · rintro _ rfl
    exact filesAligned_empty
  · intro _ _ _ hinvariant haligned hkeeps hstep
    exact haligned.step hinvariant hkeeps hstep

end System

/-! ### The lineage of a generation -/

section Lineage

variable (root) (recorded : Metadata → Recording)

/-- The path sources that a generation claims. -/
def Lake.pathsOf (lake : Lake Metadata Schema) (generation : String) : List PathRow :=
  (lake.rowsOf .pathSources Part.pathRows (current (lake.tables .pathSources).versions)).filter
    (·.rootSnapshotId = generation)

/-- The files that a physical snapshot has recorded. -/
def Lake.filesOf (lake : Lake Metadata Schema) (snapshot : String) : List CommittedFileRow :=
  (lake.rowsOf .files (partRows recorded) (current (lake.tables .files).versions)).filter
    (·.snapshotId = snapshot)

/-- The paths of a generation have one physical snapshot each, those of its parent the same, and the
    files behind any two of them are recorded alike. -/
structure SoundLineage (lake : Lake Metadata Schema) (generation : String) : Prop where
  claims : lake.pathsOf generation ≠ []
  singleValued : ((lake.pathsOf generation).map (·.logicalPath)).Nodup
  inherits : ∀ row ∈ lake.pathsOf generation, row.parentRootSnapshotId ≠ "" →
    HasCommit root lake row.parentRootSnapshotId ∧
      ∀ source ∈ lake.pathsOf row.parentRootSnapshotId, ∃ own ∈ lake.pathsOf generation,
        own.logicalPath = source.logicalPath ∧
          own.physicalSnapshotId = source.physicalSnapshotId
  resolves : ∀ row ∈ lake.pathsOf generation, ∀ (catalogPath : List Char)
    (parameters : CatalogParameters),
      resolvePath root lake catalogPath parameters generation row.logicalPath =
        .ok row.physicalSnapshotId
  joins : ∀ row ∈ lake.pathsOf generation, ∀ other ∈ lake.pathsOf generation,
    ∀ file ∈ lake.filesOf recorded row.physicalSnapshotId,
      ∀ same ∈ lake.filesOf recorded other.physicalSnapshotId,
        file.identity.rootUri = same.identity.rootUri → RecordedAlike file.identity same.identity

variable {root} {recorded}

theorem Consistent.pathsOf (h : Consistent root lake) (hcommitted : lake.Committed root generation)
    {part : Part Metadata} (hpart : lake.placed root .pathSources generation = some part) :
    lake.pathsOf generation = part.pathRows := by
  have howner : ∀ other part, lake.placed root .pathSources other = some part →
      ∀ row ∈ part.pathRows, row.rootSnapshotId = other := fun other part hpart =>
    (h.parts other .pathSources part (.inr hpart) : Lineage root lake other part.pathRows).own
  exact h.filter_rowsOf howner (List.Sublist.refl _)
    (h.complete generation hcommitted .pathSources) hpart

theorem FilesAligned.filesOf (h : FilesAligned root recorded lake)
    (hconsistent : Consistent root lake) (hcommitted : lake.Committed root generation)
    {part : Part Metadata} (hpart : lake.placed root .files generation = some part) :
    lake.filesOf recorded generation = partRows recorded part :=
  hconsistent.filter_rowsOf
    (fun other part hpart _ hrow => (h.placed other part hpart).1.snapshotId hrow)
    (List.Sublist.refl _) (hconsistent.complete generation hcommitted .files) hpart

/-- The files behind two paths of a generation. -/
theorem FilesAligned.joins (h : FilesAligned root recorded lake)
    (hconsistent : Consistent root lake) (hcommitted : lake.Committed root generation)
    {row other : PathRow} (hrow : row ∈ lake.pathsOf generation)
    (hother : other ∈ lake.pathsOf generation) {file same : CommittedFileRow}
    (hfile : file ∈ lake.filesOf recorded row.physicalSnapshotId)
    (hsame : same ∈ lake.filesOf recorded other.physicalSnapshotId)
    (huri : file.identity.rootUri = same.identity.rootUri) :
    RecordedAlike file.identity same.identity := by
  obtain ⟨part, hpart⟩ := hconsistent.placed (hconsistent.complete generation hcommitted .files)
  obtain ⟨source, hsource⟩ :=
    hconsistent.placed (hconsistent.complete generation hcommitted .pathSources)
  have hlineage : Lineage root lake generation source.pathRows :=
    hconsistent.parts generation .pathSources source (.inr hsource)
  rw [hconsistent.pathsOf hcommitted hsource] at hrow hother
  obtain ⟨lineage, hsome, haligned⟩ := (h.placed generation part hpart).2
  obtain rfl : lineage = source := by
    rw [lineagePart, hsource] at hsome
    exact (Option.some.inj hsome).symm
  rcases haligned with hown | ⟨run, hpaths, hplanned, horigins⟩
  · -- both paths are the generation's own
    rw [hown row hrow, h.filesOf hconsistent hcommitted hpart] at hfile
    rw [hown other hother, h.filesOf hconsistent hcommitted hpart] at hsame
    rw [(partRows_alike hfile hsame).2 huri]
    exact ⟨rfl, rfl, rfl, rfl⟩
  · have hall : ∀ path ∈ lineage.pathRows,
        ∀ file ∈ lake.filesOf recorded path.physicalSnapshotId, Planned run file.identity := by
      intro path hpath file hfile
      rcases horigins path hpath with hself | ⟨held, hheld, hrows⟩
      · rw [hself, h.filesOf hconsistent hcommitted hpart] at hfile
        exact hplanned file hfile
      · have horigin : lake.Committed root path.physicalSnapshotId := by
          rcases hlineage.origins path hpath with hself | hindexed
          · rw [hself]
            exact hcommitted
          · exact hindexed.1
        rw [h.filesOf hconsistent horigin hheld] at hfile
        exact hrows file hfile
    exact Planned.recordedAlike hpaths (hall row hrow file hfile) (hall other hother same hsame)
      huri

/-- **The lineage of paths is sound** in every run whose extensions record their files as they
    compared them with the origins. -/
theorem lineage_sound (h : (extensions root facts recorded).Reached (KeepsInputs recorded) lake)
    (hcommit : HasCommit root lake generation) :
    SoundLineage root recorded lake generation := by
  have hconsistent := (invariant_of_extensions h).consistent
  have haligned := filesAligned_of_reached h
  have hcommitted := hconsistent.hasCommit.mp hcommit
  obtain ⟨part, hpart⟩ :=
    hconsistent.placed (hconsistent.complete generation hcommitted .pathSources)
  have hlineage : Lineage root lake generation part.pathRows :=
    hconsistent.parts generation .pathSources part (.inr hpart)
  have hpaths := hconsistent.pathsOf hcommitted hpart
  refine ⟨?_, ?_, fun row hrow hparent => ?_, fun row hrow catalogPath parameters => ?_,
    fun row hrow other hother file hfile same hsame huri =>
      haligned.joins hconsistent hcommitted hrow hother hfile hsame huri⟩
  · rw [hpaths]
    exact hlineage.nonempty
  · rw [hpaths]
    exact hlineage.paths
  · rw [hpaths] at hrow ⊢
    obtain ⟨parent, hparents, ⟨hempty, -⟩ | hextension⟩ := hlineage.parent
    · exact absurd ((hparents row hrow).trans hempty) hparent
    · obtain rfl := hparents row hrow
      obtain ⟨source, hsource, hkeeps, -⟩ := hextension.keeps
      rw [hconsistent.pathsOf hextension.committed hsource]
      exact ⟨hconsistent.hasCommit.mpr hextension.committed, hkeeps⟩
  · rw [hpaths] at hrow
    exact (resolvePath_ok_iff hconsistent hcommitted hpart catalogPath parameters _ _).mpr
      ⟨row, hrow, rfl, rfl⟩

end Lineage

/-! ### One file -/

/-- A file of two events, as two runs find it. -/
def oneFile : Surroundings where
  inputs :=
    { localFileSize := fun _ => 10
      localMtimeNS := fun _ => 1
      plans := [{ path := "/d/a.root", entries := 2 }]
      plans_ne_nil := by decide
      paths_nodup := by decide }
  answer rows := (rows.dedup).insertionSort fun file other =>
    file.eventBase.toNat ≤ other.eventBase.toNat
  distinct rows := by
    refine ⟨fun row hrow => ?_, ?_, fun row hrow => ?_, ?_⟩
    · exact List.mem_dedup.mp ((List.mem_insertionSort _).mp hrow)
    · rw [List.map_id]
      exact (List.perm_insertionSort _ _).nodup_iff.mpr (List.nodup_dedup rows)
    · rw [List.map_id]
      exact (List.mem_insertionSort _).mpr (List.mem_dedup.mpr hrow)
    · exact List.pairwise_insertionSort _ _

/-- The file as a generation has recorded it. -/
def oneRecording (generation : String) (fileSize : UInt64) (mtimeNs : Int) (entries : UInt64) :
    Recording where
  generation := generation
  datasetId := "d"
  files := [⟨{ path := "/d/a.root", entries := 2 }, fileSize, mtimeNs, entries, "Events", 1⟩]
  once := List.nodup_singleton _

/-- The first generation records the file as it is, the second one as given. -/
def recordings (second : Recording) (content : Nat) : Recording :=
  if content = 7 then oneRecording "1" 10 1 2 else second

/-- The second generation is cut off once, and compares its file again when it is taken up. -/
def extensionRuns : List (Surroundings × Action Nat) :=
  twoGenerations.map fun action => (oneFile, action)

/-- Both generations record the file alike. -/
theorem lineage_sound_two : ∃ lake : Lake Nat Unit,
    lake.pathsOf "2" = [⟨"2", "pt", "1", "1"⟩, ⟨"2", "eta", "2", "1"⟩] ∧
      SoundLineage "" (recordings (oneRecording "2" 10 1 2)) lake "2" := by
  have hrun : (Runs.runSteps (Runs.guarded (KeepsInputs (recordings (oneRecording "2" 10 1 2)))
      (extensionStep "" plainFacts (recordings (oneRecording "2" 10 1 2)))) emptyLake
        extensionRuns).any (fun lake => HasCommit "" lake "2" ∧
          lake.pathsOf "2" = [⟨"2", "pt", "1", "1"⟩, ⟨"2", "eta", "2", "1"⟩]) = true := by
    decide +kernel
  obtain ⟨lake, hlake, hfacts⟩ := (Option.any_eq_true _ _).mp hrun
  obtain ⟨hcommit, hpaths⟩ := of_decide_eq_true hfacts
  have hreached : (extensions "" plainFacts (recordings (oneRecording "2" 10 1 2))).Reached
      (KeepsInputs (recordings (oneRecording "2" 10 1 2))) lake :=
    Runs.System.reached_of_guarded (fun _ _ _ hstep => hstep) rfl hlake
  exact ⟨lake, hpaths, lineage_sound hreached hcommit⟩

/-- The file grows after it has been compared with the first generation, and before a worker of the
    second one reads it: the rows of its two paths are not of the same events. -/
theorem grown_file_breaks_lineage : ∃ lake : Lake Nat Unit,
    (extensions "" plainFacts (recordings (oneRecording "2" 15 3 3))).Reachable lake ∧
      HasCommit "" lake "2" ∧
        ¬ SoundLineage "" (recordings (oneRecording "2" 15 3 3)) lake "2" := by
  have hrun : (Runs.runSteps (extensionStep "" plainFacts (recordings (oneRecording "2" 15 3 3)))
      emptyLake extensionRuns).any (fun lake => HasCommit "" lake "2" ∧
        lake.pathsOf "2" = [⟨"2", "pt", "1", "1"⟩, ⟨"2", "eta", "2", "1"⟩] ∧
        lake.filesOf (recordings (oneRecording "2" 15 3 3)) "1" =
          [⟨"1", "d", ⟨"/d/a.root", 10, 1, 0, 2, "Events"⟩⟩] ∧
        lake.filesOf (recordings (oneRecording "2" 15 3 3)) "2" =
          [⟨"2", "d", ⟨"/d/a.root", 15, 3, 0, 3, "Events"⟩⟩]) = true := by
    decide +kernel
  obtain ⟨lake, hlake, hfacts⟩ := (Option.any_eq_true _ _).mp hrun
  obtain ⟨hcommit, hpaths, hfirst, hsecond⟩ := of_decide_eq_true hfacts
  have hreached :
      (extensions "" plainFacts (recordings (oneRecording "2" 15 3 3))).Reachable lake :=
    Runs.System.reached_of_runSteps (fun _ _ _ hstep => ⟨trivial, hstep⟩) (.init rfl) hlake
  refine ⟨lake, hreached, hcommit, fun hsound => ?_⟩
  have hbefore : (⟨"1", "d", ⟨"/d/a.root", 10, 1, 0, 2, "Events"⟩⟩ : CommittedFileRow) ∈
      lake.filesOf (recordings (oneRecording "2" 15 3 3)) "1" := by
    rw [hfirst]
    exact List.mem_singleton_self _
  have hafter : (⟨"2", "d", ⟨"/d/a.root", 15, 3, 0, 3, "Events"⟩⟩ : CommittedFileRow) ∈
      lake.filesOf (recordings (oneRecording "2" 15 3 3)) "2" := by
    rw [hsecond]
    exact List.mem_singleton_self _
  have halike := hsound.joins ⟨"2", "pt", "1", "1"⟩ (by rw [hpaths]; decide)
    ⟨"2", "eta", "2", "1"⟩ (by rw [hpaths]; decide) _ hbefore _ hafter rfl
  exact absurd halike.totalEntries (by decide)

end RootLake.Iceberg

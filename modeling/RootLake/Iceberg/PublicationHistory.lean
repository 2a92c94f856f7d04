/-
  RootLake/Iceberg/PublicationHistory.lean
  ========================================
  **What later publications do to a generation.**

  A committed generation is read the same ever after.  One that was cut off after it had
  written down its snapshots is checked against them when it is taken up again: it can be
  finished as long as they are the newest ones, and not once another generation has been
  published.
-/
import RootLake.Iceberg.CatalogReader

namespace RootLake.Iceberg

open RootLake.AppendLog RootLake.ExceptRules RootLake.Iceberg.Lake
open RootLake.Dataset (CatalogParameters)

variable {Metadata Schema : Type} {root : String} {facts : PartFacts Metadata Schema}
variable {lake next : Lake Metadata Schema} {generation : String} {name : TableName}

/-! ### Later states -/

/-- What is listed, placed and recorded stays. -/
structure Keeps (root : String) (lake next : Lake Metadata Schema) : Prop
    extends Extends root lake next where
  filesAt : ∀ {name id files}, AppendLog.filesAt (lake.tables name).versions id = some files →
    AppendLog.filesAt (next.tables name).versions id = some files

theorem Keeps.of_sameTables (h : SameTables lake next) : Keeps root lake next where
  toExtends := h.extends
  filesAt hfiles := by rwa [(h _).2]

theorem Keeps.trans {last : Lake Metadata Schema} (h : Keeps root lake next)
    (hlast : Keeps root next last) : Keeps root lake last where
  listed hlisted := hlast.listed (h.listed hlisted)
  listsAt hlists := hlast.listsAt (h.listsAt hlists)
  placed hplaced := hlast.placed (h.placed hplaced)
  filesAt hfiles := hlast.filesAt (h.filesAt hfiles)

theorem appendFile_keeps {choice : Choice} {commit : TableCommit}
    (hallows : lake.Allows choice (.append name))
    (h : lake.appendFile root facts generation name choice = .ok (next, commit)) :
    Keeps root lake next where
  toExtends := appendFile_extends h
  filesAt {table id files} hfiles := by
    obtain ⟨-, -, ⟨rfl, -⟩ | ⟨-, -, file, -, new, -, -, hversions, rfl⟩⟩ := appendFile_spec h
    · exact hfiles
    · by_cases htable : table = name
      · subst htable
        rw [setTable_self, hversions]
        exact filesAt_append hallows.2 file hfiles
      · rwa [setTable_of_ne htable]

theorem perform_keeps {publisher : Publisher} {choice : Choice} {task : Task}
    {results : List TableCommit} (hallows : lake.Allows choice task)
    (h : lake.perform root facts publisher choice task = .ok (next, results)) :
    Keeps root lake next := by
  cases task with
  | openCatalog =>
    obtain ⟨rfl, -⟩ := Prod.mk.inj (Except.ok.inj h)
    exact .of_sameTables (.of_tables_eq rfl)
  | place name =>
    obtain ⟨after, hplace, hrest⟩ := bind_ok_iff.mp h
    obtain ⟨rfl, -⟩ := Prod.mk.inj (Except.ok.inj hrest)
    refine ⟨place_extends hplace, fun hfiles => ?_⟩
    rwa [place_versions hplace]
  | create name =>
    obtain ⟨after, hcreate, hrest⟩ := bind_ok_iff.mp h
    obtain ⟨rfl, -⟩ := Prod.mk.inj (Except.ok.inj hrest)
    exact .of_sameTables (getOrCreateTable_spec hcreate).1
  | append name =>
    obtain ⟨⟨after, commit⟩, happend, hrest⟩ := bind_ok_iff.mp h
    obtain ⟨rfl, -⟩ := Prod.mk.inj (Except.ok.inj hrest)
    exact appendFile_keeps hallows happend
  | writeSnapshots =>
    obtain ⟨after, hwrite, hrest⟩ := bind_ok_iff.mp h
    obtain ⟨rfl, -⟩ := Prod.mk.inj (Except.ok.inj hrest)
    rcases writeSnapshots_spec hwrite with rfl | rfl <;> exact .of_sameTables (.of_tables_eq rfl)
  | writeCommit =>
    obtain ⟨after, hwrite, hrest⟩ := bind_ok_iff.mp h
    obtain ⟨rfl, -⟩ := Prod.mk.inj (Except.ok.inj hrest)
    rcases writeCommit_spec hwrite with rfl | rfl <;> exact .of_sameTables (.of_tables_eq rfl)

theorem begin_sameTables (h : Consistent root lake) {request : IndexRequest}
    {latest : Option CommitRow} (hlatest : IsLatest (lake.latestCommits root) latest) :
    SameTables lake (lake.begin root facts request latest) := by
  unfold Lake.begin
  split
  · exact .of_tables_eq rfl
  · rename_i prepared hprepared
    rcases h.preparePathSources hlatest hprepared with ⟨rfl, -⟩ | ⟨_, -, rfl⟩ <;>
      exact .of_tables_eq rfl

/-- **No step takes anything back.** -/
theorem step_keeps (h : Invariant root lake) {action : Action Metadata}
    (hstep : lake.step root facts action = some next) : Keeps root lake next := by
  cases action with
  | build generation content =>
    obtain ⟨-, hnext⟩ := Option.ite_none_right_eq_some.mp hstep
    obtain rfl := Option.some.inj hnext
    exact .of_sameTables (.of_tables_eq rfl)
  | discard generation name =>
    obtain ⟨-, hnext⟩ := Option.ite_none_right_eq_some.mp hstep
    obtain rfl := Option.some.inj hnext
    exact .of_sameTables (.of_tables_eq rfl)
  | begin request latest =>
    obtain ⟨⟨-, -, hlatest⟩, hnext⟩ := Option.ite_none_right_eq_some.mp hstep
    obtain rfl := Option.some.inj hnext
    exact .of_sameTables (begin_sameTables h.consistent hlatest)
  | task choice =>
    simp only [Lake.step] at hstep
    split at hstep
    · cases hstep
    · rename_i publisher hpublisher
      obtain ⟨hallows, hnext⟩ := Option.ite_none_right_eq_some.mp hstep
      obtain rfl := Option.some.inj hnext
      unfold Lake.performNext
      split
      · exact .of_sameTables (.of_tables_eq rfl)
      · rename_i task rest htodo
        split
        · exact .of_sameTables (.of_tables_eq rfl)
        · rename_i after results hperform
          have hafter := perform_keeps (hallows task (by rw [htodo]; rfl)) hperform
          exact hafter.trans (.of_sameTables (.of_tables_eq rfl))
  | interrupt =>
    obtain rfl := Option.some.inj hstep
    exact .of_sameTables (.of_tables_eq rfl)

theorem run_keeps (h : Invariant root lake) {actions : List (Action Metadata)}
    (hrun : Runs.runSteps (Lake.step root facts) lake actions = some next) :
    Invariant root next ∧ Keeps root lake next := by
  induction actions generalizing lake with
  | nil =>
    obtain rfl := Option.some.inj hrun
    exact ⟨h, .of_sameTables (.of_tables_eq rfl)⟩
  | cons action actions ih =>
    obtain ⟨after, hstep, hrest⟩ := Option.bind_eq_some_iff.mp hrun
    obtain ⟨hnext, hkeeps⟩ := ih (h.step hstep) hrest
    exact ⟨hnext, (step_keeps h hstep).trans hkeeps⟩

/-- The mapping of a generation is that of its part. -/
theorem Consistent.snapshotMapping (h : Consistent root lake)
    (hcommitted : lake.Committed root generation) {part : Part Metadata}
    (hpart : lake.placed root .snapshots generation = some part) :
    Iceberg.snapshotMapping lake generation =
      part.snapshotRows.map fun row => (row.tableName, row.icebergSnapshotId) := by
  have howner : ∀ other part, lake.placed root .snapshots other = some part →
      ∀ row ∈ part.snapshotRows, row.rootSnapshotId = other := fun other part hpart =>
    (h.parts other .snapshots part (.inr hpart) :
      SnapshotRecord root lake other part.snapshotRows).own
  rw [Iceberg.snapshotMapping, h.filter_rowsOf howner (List.Sublist.refl _)
    (h.complete generation hcommitted .snapshots) hpart]

/-- **A committed generation reads the same ever after**, whatever is built, published, cut off
    or thrown away. -/
theorem committed_generation_stable (h : (publications root facts).Reachable lake)
    (hcommit : HasCommit root lake generation) {actions : List (Action Metadata)}
    (hrun : Runs.runSteps (Lake.step root facts) lake actions = some next)
    (catalogPath : List Char) (parameters : CatalogParameters) (path : String) :
    HasCommit root next generation ∧
      openGeneration root next catalogPath parameters generation path =
        openGeneration root lake catalogPath parameters generation path ∧
      resolvePath root next catalogPath parameters generation path =
        resolvePath root lake catalogPath parameters generation path := by
  have hinvariant := invariant_of_reachable h
  obtain ⟨hnext, hkeeps⟩ := run_keeps hinvariant hrun
  have hconsistent := hinvariant.consistent
  have hcommitted := hconsistent.hasCommit.mp hcommit
  have hcommittedNext := hkeeps.committed hcommitted
  refine ⟨hnext.consistent.hasCommit.mpr hcommittedNext, ?_, ?_⟩
  · obtain ⟨ids, files, hrecorded, hcount, -⟩ := hconsistent.exists_recorded hcommitted
    have hne : ∀ name ∈ recordedTables, files name ≠ [] := fun name hname =>
      ne_nil_of_count (hcount name hname)
    obtain ⟨part, hpart⟩ :=
      hconsistent.placed (hconsistent.complete generation hcommitted .snapshots)
    have hrecordedNext : Recorded next generation ids files := by
      refine ⟨?_, hrecorded.positive, fun name hname => hkeeps.filesAt (hrecorded.files name hname)⟩
      rw [hnext.consistent.snapshotMapping hcommittedNext (hkeeps.placed hpart),
        ← hconsistent.snapshotMapping hcommitted hpart]
      exact hrecorded.mapping
    rw [openGeneration_eq hconsistent hcommitted hrecorded hne,
      openGeneration_eq hnext.consistent hcommittedNext hrecordedNext hne]
  · obtain ⟨part, hpart⟩ :=
      hconsistent.placed (hconsistent.complete generation hcommitted .pathSources)
    rw [resolvePath_eq hconsistent hcommitted hpart,
      resolvePath_eq hnext.consistent hcommittedNext (hkeeps.placed hpart)]

theorem committed_generation_stable_two : ∃ lake next : Lake Nat Unit,
    Runs.runSteps (Lake.step "" plainFacts) lake secondGeneration = some next ∧
      HasCommit "" next "1" ∧ resolvePath "" next [] noParameters "1" "pt" =
        resolvePath "" lake [] noParameters "1" "pt" := by
  have hrun : (Runs.runSteps (Lake.step "" plainFacts) emptyLake firstGeneration).any
      (fun lake => HasCommit "" lake "1" ∧
        (Runs.runSteps (Lake.step "" plainFacts) lake secondGeneration).isSome) = true := by
    decide +kernel
  obtain ⟨lake, hlake, hlater⟩ := (Option.any_eq_true _ _).mp hrun
  obtain ⟨hcommit, hsome⟩ := of_decide_eq_true hlater
  obtain ⟨next, hnext⟩ := Option.isSome_iff_exists.mp hsome
  have hstable := committed_generation_stable (plainRun_reachable hlake) hcommit hnext []
    noParameters "pt"
  exact ⟨lake, next, hnext, hstable.1, hstable.2.2⟩

/-! ### Generations that are overtaken -/

theorem writeSnapshots_staged {tables : List TableCommit} {part : Part Metadata}
    (hpart : lake.staging generation .snapshots = some part) :
    lake.writeSnapshots generation tables = .ok next → next = lake := by
  intro h
  rw [Lake.writeSnapshots, hpart] at h
  dsimp only at h
  split at h
  · cases h
  · split at h
    · exact (Except.ok.inj h).symm
    · cases h

theorem writeCommit_staged {manifest dictionary : String} {now : Int} {part : Part Metadata}
    (hpart : lake.staging generation .commits = some part) :
    lake.writeCommit generation manifest dictionary now = .ok next → next = lake := by
  intro h
  rw [Lake.writeCommit, hpart] at h
  dsimp only at h
  split at h
  · split at h
    · exact (Except.ok.inj h).symm
    · cases h
  · cases h

theorem setPart_staging_of_none {written : Part Metadata} {other : String} {table : TableName}
    {part : Part Metadata} (hnone : lake.staging generation name = none)
    (hpart : lake.staging other table = some part) :
    (lake.setPart generation name (some written)).staging other table = some part := by
  by_cases hother : other = generation
  · subst hother
    have htable : table ≠ name := by
      rintro rfl
      rw [hnone] at hpart
      cases hpart
    simp only [setPart, Function.update_self, Function.update_of_ne htable]
    exact hpart
  · simp only [setPart, Function.update_of_ne hother]
    exact hpart

/-- A run does not take parts out of staging directories, nor does it replace one. -/
theorem perform_staging {publisher : Publisher} {choice : Choice} {task : Task}
    {results : List TableCommit}
    (h : lake.perform root facts publisher choice task = .ok (next, results)) {other : String}
    {table : TableName} {part : Part Metadata} (hpart : lake.staging other table = some part) :
    next.staging other table = some part := by
  cases task with
  | openCatalog =>
    obtain ⟨rfl, -⟩ := Prod.mk.inj (Except.ok.inj h)
    exact hpart
  | place name =>
    obtain ⟨after, hplace, hrest⟩ := bind_ok_iff.mp h
    obtain ⟨rfl, -⟩ := Prod.mk.inj (Except.ok.inj hrest)
    rwa [place_staging hplace]
  | create name =>
    obtain ⟨after, hcreate, hrest⟩ := bind_ok_iff.mp h
    obtain ⟨rfl, -⟩ := Prod.mk.inj (Except.ok.inj hrest)
    rwa [(getOrCreateTable_spec hcreate).2]
  | append name =>
    obtain ⟨⟨after, commit⟩, happend, hrest⟩ := bind_ok_iff.mp h
    obtain ⟨rfl, -⟩ := Prod.mk.inj (Except.ok.inj hrest)
    rwa [appendFile_staging happend]
  | writeSnapshots =>
    obtain ⟨after, hwrite, hrest⟩ := bind_ok_iff.mp h
    obtain ⟨rfl, -⟩ := Prod.mk.inj (Except.ok.inj hrest)
    cases hnone : lake.staging publisher.generation .snapshots with
    | some held => rwa [writeSnapshots_staged hnone hwrite]
    | none =>
      rcases writeSnapshots_spec hwrite with rfl | rfl
      · exact hpart
      · exact setPart_staging_of_none hnone hpart
  | writeCommit =>
    obtain ⟨after, hwrite, hrest⟩ := bind_ok_iff.mp h
    obtain ⟨rfl, -⟩ := Prod.mk.inj (Except.ok.inj hrest)
    cases hnone : lake.staging publisher.generation .commits with
    | some held => rwa [writeCommit_staged hnone hwrite]
    | none =>
      rcases writeCommit_spec hwrite with rfl | rfl
      · exact hpart
      · exact setPart_staging_of_none hnone hpart

/-- A table has the snapshots that it had, or one more. -/
theorem perform_versions {publisher : Publisher} {choice : Choice} {task : Task}
    {results : List TableCommit} (hallows : lake.Allows choice task)
    (h : lake.perform root facts publisher choice task = .ok (next, results)) (table : TableName) :
    (next.tables table).versions = (lake.tables table).versions ∨
      ∃ id file, id ∉ (lake.tables table).versions.map (·.id) ∧
        (next.tables table).versions = append (lake.tables table).versions id file := by
  cases task with
  | append name =>
    obtain ⟨⟨after, commit⟩, happend, hrest⟩ := bind_ok_iff.mp h
    obtain ⟨rfl, -⟩ := Prod.mk.inj (Except.ok.inj hrest)
    by_cases htable : table = name
    · subst htable
      obtain ⟨-, -, ⟨rfl, -⟩ | ⟨-, -, file, -, new, -, -, hversions, rfl⟩⟩ :=
        appendFile_spec happend
      · exact .inl rfl
      · rw [setTable_self]
        exact .inr ⟨choice.snapshotId, file, hallows.2, hversions⟩
    · exact .inl (appendFile_versions happend htable)
  | openCatalog =>
    obtain ⟨rfl, -⟩ := Prod.mk.inj (Except.ok.inj h)
    exact .inl rfl
  | place name =>
    obtain ⟨after, hplace, hrest⟩ := bind_ok_iff.mp h
    obtain ⟨rfl, -⟩ := Prod.mk.inj (Except.ok.inj hrest)
    exact .inl (place_versions hplace table)
  | create name =>
    obtain ⟨after, hcreate, hrest⟩ := bind_ok_iff.mp h
    obtain ⟨rfl, -⟩ := Prod.mk.inj (Except.ok.inj hrest)
    exact .inl ((getOrCreateTable_spec hcreate).1 table).2
  | writeSnapshots =>
    obtain ⟨after, hwrite, hrest⟩ := bind_ok_iff.mp h
    obtain ⟨rfl, -⟩ := Prod.mk.inj (Except.ok.inj hrest)
    rcases writeSnapshots_spec hwrite with rfl | rfl <;> exact .inl rfl
  | writeCommit =>
    obtain ⟨after, hwrite, hrest⟩ := bind_ok_iff.mp h
    obtain ⟨rfl, -⟩ := Prod.mk.inj (Except.ok.inj hrest)
    rcases writeCommit_spec hwrite with rfl | rfl <;> exact .inl rfl

/-- A run commits nothing but its own generation, and that by its last task. -/
theorem perform_committed {publisher : Publisher} {choice : Choice} {task : Task}
    {results : List TableCommit}
    (h : lake.perform root facts publisher choice task = .ok (next, results)) {other : String}
    (hcommitted : next.Committed root other) :
    lake.Committed root other ∨ (task = .append .commits ∧ other = publisher.generation) := by
  cases task with
  | append name =>
    obtain ⟨⟨after, commit⟩, happend, hrest⟩ := bind_ok_iff.mp h
    obtain ⟨rfl, -⟩ := Prod.mk.inj (Except.ok.inj hrest)
    rcases listed_of_appendFile happend hcommitted with hold | ⟨rfl, rfl⟩
    · exact .inl hold
    · exact .inr ⟨rfl, rfl⟩
  | openCatalog =>
    obtain ⟨rfl, -⟩ := Prod.mk.inj (Except.ok.inj h)
    exact .inl hcommitted
  | place name =>
    obtain ⟨after, hplace, hrest⟩ := bind_ok_iff.mp h
    obtain ⟨rfl, -⟩ := Prod.mk.inj (Except.ok.inj hrest)
    rw [Committed, Listed, place_versions hplace] at hcommitted
    exact .inl hcommitted
  | create name =>
    obtain ⟨after, hcreate, hrest⟩ := bind_ok_iff.mp h
    obtain ⟨rfl, -⟩ := Prod.mk.inj (Except.ok.inj hrest)
    exact .inl ((getOrCreateTable_spec hcreate).1.listed.mp hcommitted)
  | writeSnapshots =>
    obtain ⟨after, hwrite, hrest⟩ := bind_ok_iff.mp h
    obtain ⟨rfl, -⟩ := Prod.mk.inj (Except.ok.inj hrest)
    rcases writeSnapshots_spec hwrite with rfl | rfl <;> exact .inl hcommitted
  | writeCommit =>
    obtain ⟨after, hwrite, hrest⟩ := bind_ok_iff.mp h
    obtain ⟨rfl, -⟩ := Prod.mk.inj (Except.ok.inj hrest)
    rcases writeCommit_spec hwrite with rfl | rfl <;> exact .inl hcommitted

/-- A snapshot of the table that is not its newest one. -/
def Superseded (lake : Lake Metadata Schema) (name : TableName) (id : Int) : Prop :=
  id ∈ (lake.tables name).versions.map (·.id) ∧
    (lake.tables name).versions.head?.map (·.id) ≠ some id

theorem Superseded.perform {publisher : Publisher} {choice : Choice} {task : Task}
    {results : List TableCommit} {id : Int} (h : Superseded lake name id)
    (hallows : lake.Allows choice task)
    (hperform : lake.perform root facts publisher choice task = .ok (next, results)) :
    Superseded next name id := by
  rcases perform_versions hallows hperform name with hsame | ⟨new, file, hfresh, hversions⟩
  · rwa [Superseded, hsame]
  · rw [Superseded, hversions]
    refine ⟨List.mem_cons_of_mem _ h.1, ?_⟩
    intro hhead
    have hid : new = id := Option.some.inj hhead
    exact hfresh (hid ▸ h.1)

/-- The generation is not committed, and a snapshot it has written down is not the newest. -/
structure Overtaken (root : String) (lake : Lake Metadata Schema) (generation : String) :
    Prop where
  record : ∃ part, lake.staging generation .snapshots = some part ∧
    ∃ name ∈ recordedTables, ∃ id, savedSnapshot part.snapshotRows name.text = some id ∧
      Superseded lake name id
  uncommitted : ¬lake.Committed root generation
  ahead : ∀ publisher, lake.publisher = some publisher → publisher.generation = generation →
    Task.writeSnapshots ∈ publisher.todo

theorem Overtaken.of_sameTables (h : Overtaken root lake generation) (hsame : SameTables lake next)
    (hstaged : ∀ part, lake.staging generation .snapshots = some part →
      next.staging generation .snapshots = some part)
    (hahead : ∀ publisher, next.publisher = some publisher →
      publisher.generation = generation → Task.writeSnapshots ∈ publisher.todo) :
    Overtaken root next generation where
  record := by
    obtain ⟨part, hpart, name, hname, id, hsaved, hsuperseded⟩ := h.record
    refine ⟨part, hstaged part hpart, name, hname, id, hsaved, ?_⟩
    rwa [Superseded, (hsame name).2]
  uncommitted hcommitted := h.uncommitted (hsame.listed.mp hcommitted)
  ahead := hahead

/-- What the generation has written down does not fit what its run has noted. -/
theorem Overtaken.writeSnapshots_error {done : List Task} {results : List TableCommit}
    (h : Overtaken root lake generation) (hdone : appended done = recordedTables)
    (hprogress : Progress root lake generation done results) :
    ∀ next, lake.writeSnapshots generation results ≠ .ok next := by
  intro next hwrite
  obtain ⟨part, hpart, name, hname, id, hsaved, hsuperseded⟩ := h.record
  rw [← hdone] at hname
  obtain ⟨commit, hcommit, hcovers⟩ := hprogress.covers hname
  rw [Lake.writeSnapshots, hpart] at hwrite
  dsimp only at hwrite
  split at hwrite
  · cases hwrite
  · split at hwrite
    · rename_i hall
      have hid := hall commit hcommit
      rw [hcovers.table, hsaved] at hid
      exact hsuperseded.2 (hcovers.newest.trans hid.symm)
    · cases hwrite

theorem Overtaken.performNext (h : Overtaken root lake generation)
    (hinvariant : Invariant root lake) {publisher : Publisher}
    (hpublisher : lake.publisher = some publisher) {choice : Choice}
    (hallows : ∀ task ∈ publisher.todo.head?, lake.Allows choice task) :
    Overtaken root (lake.performNext root facts publisher choice) generation := by
  have hended : Overtaken root { lake with publisher := none } generation := by
    refine h.of_sameTables ?_ ?_ ?_
    · exact .of_tables_eq rfl
    · exact fun _ hpart => hpart
    · intro publisher hpublisher
      cases hpublisher
  unfold Lake.performNext
  split
  · exact hended
  · rename_i task rest htodo
    split
    · exact hended
    · rename_i after results hperform
      have hallowed := hallows task (by rw [htodo]; rfl)
      obtain ⟨done, hdone, hprogress⟩ := (hinvariant.publishing publisher hpublisher).progress
      rw [htodo] at hdone
      have hahead : publisher.generation = generation → Task.writeSnapshots ∈ rest := by
        rintro rfl
        have hin := h.ahead publisher hpublisher rfl
        rw [htodo] at hin
        rcases List.mem_cons.mp hin with rfl | hin
        · obtain ⟨written, hwrite, -⟩ := bind_ok_iff.mp hperform
          refine absurd hwrite (h.writeSnapshots_error ?_ hprogress written)
          rw [done_eq hdone]
          decide
        · exact hin
      constructor
      · obtain ⟨part, hpart, name, hname, id, hsaved, hsuperseded⟩ := h.record
        have hafter := hsuperseded.perform hallowed hperform
        exact ⟨part, perform_staging hperform hpart, name, hname, id, hsaved, hafter⟩
      · intro hcommitted
        rcases perform_committed hperform hcommitted with hold | ⟨rfl, rfl⟩
        · exact h.uncommitted hold
        · have hnodup : (done ++ .append .commits :: rest).Nodup := hdone ▸ by decide
          have hin : Task.writeSnapshots ∈ done := by
            rw [done_eq hdone]
            decide
          exact (List.nodup_append.mp hnodup).2.2 _ hin _
            (List.mem_cons_of_mem _ (hahead rfl)) rfl
      · intro new hnew hgeneration
        obtain rfl := Option.some.inj hnew
        exact hahead hgeneration

theorem begin_todo {request : IndexRequest} {latest : Option CommitRow} {publisher : Publisher}
    (h : (lake.begin root facts request latest).publisher = some publisher)
    (hidle : lake.publisher = none) : Task.writeSnapshots ∈ publisher.todo := by
  unfold Lake.begin at h
  split at h
  · rw [hidle] at h
    cases h
  · obtain rfl := Option.some.inj h
    dsimp only
    cases (_ : Option (Part Metadata)).isSome <;> decide

theorem begin_staging (h : Consistent root lake) {request : IndexRequest}
    {latest : Option CommitRow} (hlatest : IsLatest (lake.latestCommits root) latest)
    {part : Part Metadata} (hpart : lake.staging generation .snapshots = some part) :
    (lake.begin root facts request latest).staging generation .snapshots = some part := by
  unfold Lake.begin
  split
  · exact hpart
  · rename_i prepared hprepared
    rcases h.preparePathSources hlatest hprepared with ⟨rfl, -⟩ | ⟨rows, -, rfl⟩
    · exact hpart
    · by_cases hother : generation = request.generation
      · subst hother
        simp only [setPart, Function.update_self]
        rwa [Function.update_of_ne (by decide)]
      · simp only [setPart, Function.update_of_ne hother]
        exact hpart

/-- **A generation that is overtaken stays so** as long as its record is not thrown away. -/
theorem Overtaken.step (h : Overtaken root lake generation) (hinvariant : Invariant root lake)
    {action : Action Metadata} (hkeep : action ≠ .discard generation .snapshots)
    (hstep : lake.step root facts action = some next) : Overtaken root next generation := by
  cases action with
  | build other content =>
    obtain ⟨hidle, hnext⟩ := Option.ite_none_right_eq_some.mp hstep
    obtain rfl := Option.some.inj hnext
    refine h.of_sameTables ?_ ?_ ?_
    · exact .of_tables_eq rfl
    · intro part hpart
      by_cases hother : generation = other
      · subst hother
        simp only [Lake.build, Function.update_self]
        rwa [if_neg (by decide)]
      · simp only [Lake.build, Function.update_of_ne hother]
        exact hpart
    · intro publisher hpublisher
      exact h.ahead publisher hpublisher
  | discard other name =>
    obtain ⟨hidle, hnext⟩ := Option.ite_none_right_eq_some.mp hstep
    obtain rfl := Option.some.inj hnext
    refine h.of_sameTables ?_ ?_ ?_
    · exact .of_tables_eq rfl
    · intro part hpart
      by_cases hother : generation = other
      · subst hother
        have hname : TableName.snapshots ≠ name := by
          rintro rfl
          exact hkeep rfl
        simp only [setPart, Function.update_self, Function.update_of_ne hname]
        exact hpart
      · simp only [setPart, Function.update_of_ne hother]
        exact hpart
    · intro publisher hpublisher
      exact h.ahead publisher hpublisher
  | begin request latest =>
    obtain ⟨⟨hidle, hnamed, hlatest⟩, hnext⟩ := Option.ite_none_right_eq_some.mp hstep
    obtain rfl := Option.some.inj hnext
    refine h.of_sameTables ?_ ?_ ?_
    · exact begin_sameTables hinvariant.consistent hlatest
    · exact fun part hpart => begin_staging hinvariant.consistent hlatest hpart
    · intro publisher hpublisher _
      exact begin_todo hpublisher (Option.isNone_iff_eq_none.mp hidle)
  | task choice =>
    simp only [Lake.step] at hstep
    split at hstep
    · cases hstep
    · rename_i publisher hpublisher
      obtain ⟨hallows, hnext⟩ := Option.ite_none_right_eq_some.mp hstep
      obtain rfl := Option.some.inj hnext
      exact h.performNext hinvariant hpublisher hallows
  | interrupt =>
    obtain rfl := Option.some.inj hstep
    refine h.of_sameTables ?_ ?_ ?_
    · exact .of_tables_eq rfl
    · exact fun _ hpart => hpart
    · intro publisher hpublisher
      cases hpublisher

theorem Overtaken.run (h : Overtaken root lake generation) (hinvariant : Invariant root lake)
    {actions : List (Action Metadata)} (hkeep : .discard generation .snapshots ∉ actions)
    (hrun : Runs.runSteps (Lake.step root facts) lake actions = some next) :
    Overtaken root next generation := by
  induction actions generalizing lake with
  | nil =>
    obtain rfl := Option.some.inj hrun
    exact h
  | cons action actions ih =>
    obtain ⟨after, hstep, hrest⟩ := Option.bind_eq_some_iff.mp hrun
    rw [List.mem_cons, not_or] at hkeep
    have hafter := h.step hinvariant (fun heq => hkeep.1 heq.symm) hstep
    exact ih hafter (hinvariant.step hstep) hkeep.2 hrest

theorem SnapshotRecord.saved {rows : List SnapshotRow}
    (h : SnapshotRecord root lake generation rows) (hname : name ∈ recordedTables) {id : Int}
    (hsaved : savedSnapshot rows name.text = some id) : lake.ListsAt root name id generation := by
  obtain ⟨row, hfound, rfl⟩ := Option.map_eq_some_iff.mp hsaved
  have htable : row.tableName = name.text := by simpa using List.find?_some hfound
  exact h.listsAt name hname row (List.mem_of_find?_eq_some hfound) htable

/-- **A generation that has been overtaken is never finished.** It has written down its
    snapshots without being committed, and one of them is not the newest of its table: then no
    run, of this generation or of others, commits it, unless the record is thrown away. -/
theorem overtaken_never_commits (h : (publications root facts).Reachable lake)
    (hidle : lake.publisher = none) {part : Part Metadata}
    (hpart : lake.staging generation .snapshots = some part) (hname : name ∈ recordedTables)
    {id : Int} (hsaved : savedSnapshot part.snapshotRows name.text = some id)
    (hnewest : (lake.tables name).versions.head?.map (·.id) ≠ some id)
    (huncommitted : ¬HasCommit root lake generation) {actions : List (Action Metadata)}
    (hkeep : .discard generation .snapshots ∉ actions)
    (hrun : Runs.runSteps (Lake.step root facts) lake actions = some next) :
    ¬HasCommit root next generation := by
  have hinvariant := invariant_of_reachable h
  have hrecord : SnapshotRecord root lake generation part.snapshotRows :=
    hinvariant.consistent.parts generation .snapshots part (.inl hpart)
  have hovertaken : Overtaken root lake generation := by
    refine ⟨⟨part, hpart, name, hname, id, hsaved, ?_, hnewest⟩, ?_, ?_⟩
    · obtain ⟨version, hversion, rfl, -⟩ := hrecord.saved hname hsaved
      exact List.mem_map_of_mem hversion
    · exact fun hcommitted => huncommitted (hinvariant.consistent.hasCommit.mpr hcommitted)
    · intro publisher hpublisher
      rw [hidle] at hpublisher
      cases hpublisher
  have hnext := (run_keeps hinvariant hrun).1
  intro hcommit
  apply (hovertaken.run hinvariant hkeep hrun).uncommitted
  exact hnext.consistent.hasCommit.mp hcommit

/-- The second generation is cut off behind its record, and a third one is published. -/
def overtakenGeneration : List (Action Nat) :=
  firstGeneration ++ [.build "2" fun _ => some 8] ++
    [.begin (plainRequest "2" false "eta") (plainCommit "1" 1)] ++ plainTasks 17 101 ++
    [.interrupt, .build "3" fun _ => some 9] ++
    [.begin (plainRequest "3" false "phi") (plainCommit "1" 1)] ++ plainTasks 25 201

theorem overtaken_never_commits_two : ∃ lake : Lake Nat Unit,
    ¬HasCommit "" lake "2" ∧ HasCommit "" lake "3" ∧ ∀ actions next,
      .discard "2" .snapshots ∉ actions →
        Runs.runSteps (Lake.step "" plainFacts) lake actions = some next →
          ¬HasCommit "" next "2" := by
  have hrun : (Runs.runSteps (Lake.step "" plainFacts) emptyLake overtakenGeneration).any
      (fun lake => lake.publisher.isNone ∧ ¬HasCommit "" lake "2" ∧ HasCommit "" lake "3" ∧
        (lake.staging "2" .snapshots).any fun part =>
          savedSnapshot part.snapshotRows "files" = some 104 ∧
            (lake.tables .files).versions.head?.map (·.id) ≠ some 104) = true := by
    decide +kernel
  obtain ⟨lake, hlake, hovertaken⟩ := (Option.any_eq_true _ _).mp hrun
  obtain ⟨hidle, huncommitted, hcommit, hany⟩ := of_decide_eq_true hovertaken
  obtain ⟨part, hpart, hrecord⟩ := (Option.any_eq_true _ _).mp hany
  obtain ⟨hsaved, hnewest⟩ := of_decide_eq_true hrecord
  refine ⟨lake, huncommitted, hcommit, fun actions next hkeep hnext => ?_⟩
  exact @overtaken_never_commits _ _ _ _ _ _ _ .files (plainRun_reachable hlake)
    (Option.isNone_iff_eq_none.mp hidle) part hpart (by decide) _ hsaved hnewest huncommitted
    actions hkeep hnext

end RootLake.Iceberg

/-
  RootLake/Iceberg/PublicationRecovery.lean
  =========================================
  **A publication that was cut off can be finished.**

  Every task of a run either finds that it has been done already or does it.  It fails only if
  the part it works on is not the one that was worked on before, and that is excluded when the
  staging directory has been left alone and no other generation came in between the record of
  the snapshots and its commit.
-/
import RootLake.Iceberg.PublicationHistory

namespace RootLake.Iceberg

open RootLake.AppendLog RootLake.ExceptRules RootLake.Iceberg.Lake

variable {Metadata Schema : Type} {root : String} {facts : PartFacts Metadata Schema}
variable {lake next : Lake Metadata Schema} {generation : String} {name : TableName}

/-! ### Sizes -/

/-- The sizes in the tables are those of the files. -/
def Sized (facts : PartFacts Metadata Schema) (lake : Lake Metadata Schema) : Prop :=
  ∀ name, ∀ file ∈ current (lake.tables name).versions, ∀ part,
    (lake.tables name).data file.filePath = some part → file.fileSize = facts.fileSize part

theorem Sized.of_sameTables (h : Sized facts lake) (hsame : SameTables lake next) :
    Sized facts next := by
  intro name file hfile part hpart
  rw [(hsame name).2] at hfile
  rw [(hsame name).1] at hpart
  exact h name file hfile part hpart

theorem Sized.place (h : Sized facts lake) (hconsistent : Consistent root lake)
    (hplace : lake.place root facts generation name = .ok next) : Sized facts next := by
  intro table file hfile part hpart
  rw [place_versions hplace] at hfile
  obtain ⟨other, held, huri, hheld⟩ := hconsistent.files table file hfile
  have hnext := (place_extends hplace).placed hheld
  rw [huri, ← Lake.placed, hnext] at hpart
  obtain rfl := Option.some.inj hpart
  exact h table file hfile held (huri ▸ hheld)

theorem fastAppend_size {part : Part Metadata} {choice : Choice} {commit : TableCommit}
    (h : lake.fastAppend root facts generation name part choice = .ok (next, commit)) :
    ∃ rows, (next.tables name).versions = append (lake.tables name).versions choice.snapshotId
      ⟨fileUri root name generation, rows, facts.fileSize part⟩ := by
  obtain ⟨rows, -, h⟩ := bind_ok_iff.mp h
  obtain ⟨rfl, -⟩ := Prod.mk.inj (Except.ok.inj h)
  exact ⟨rows, by rw [setTable_self]⟩

theorem Sized.append (h : Sized facts lake) {choice : Choice} {commit : TableCommit}
    (happend : lake.appendFile root facts generation name choice = .ok (next, commit)) :
    Sized facts next := by
  intro table file hfile part hpart
  by_cases htable : table = name
  · subst htable
    obtain ⟨⟨held, hheld⟩, -, -⟩ := appendFile_spec happend
    have hdata : (next.tables table).data = (lake.tables table).data := by
      obtain ⟨-, -, ⟨rfl, -⟩ | ⟨-, -, _, -, new, hdata, -, -, rfl⟩⟩ := appendFile_spec happend
      · rfl
      · rw [setTable_self, hdata]
    rw [hdata] at hpart
    have hadded : ∀ {rows}, (next.tables table).versions =
        AppendLog.append (lake.tables table).versions choice.snapshotId
          ⟨fileUri root table generation, rows, facts.fileSize held⟩ →
        file.fileSize = facts.fileSize part := by
      intro rows hversions
      rw [hversions, current_append] at hfile
      rcases List.mem_append.mp hfile with hfile | hfile
      · exact h table file hfile part hpart
      · obtain rfl := List.mem_singleton.mp hfile
        rw [← Lake.placed, hheld] at hpart
        rw [Option.some.inj hpart]
    unfold Lake.appendFile at happend
    rw [hheld] at happend
    dsimp only at happend
    split at happend
    · obtain ⟨rows, hversions⟩ := fastAppend_size happend
      exact hadded hversions
    · split at happend
      · obtain ⟨rows, hversions⟩ := fastAppend_size happend
        exact hadded hversions
      · split at happend
        · obtain ⟨rfl, -⟩ := Prod.mk.inj (Except.ok.inj happend)
          exact h table file hfile part hpart
        · cases happend
  · rw [appendFile_versions happend htable] at hfile
    have hdata : (next.tables table).data = (lake.tables table).data := by
      obtain ⟨-, -, ⟨rfl, -⟩ | ⟨-, -, _, -, new, -, -, -, rfl⟩⟩ := appendFile_spec happend
      · rfl
      · rw [setTable_of_ne htable]
    rw [hdata] at hpart
    exact h table file hfile part hpart

theorem Sized.perform (h : Sized facts lake) (hconsistent : Consistent root lake)
    {publisher : Publisher} {choice : Choice} {task : Task} {results : List TableCommit}
    (hperform : lake.perform root facts publisher choice task = .ok (next, results)) :
    Sized facts next := by
  cases task with
  | openCatalog =>
    obtain ⟨rfl, -⟩ := Prod.mk.inj (Except.ok.inj hperform)
    exact h
  | place name =>
    obtain ⟨after, hplace, hrest⟩ := bind_ok_iff.mp hperform
    obtain ⟨rfl, -⟩ := Prod.mk.inj (Except.ok.inj hrest)
    exact h.place hconsistent hplace
  | create name =>
    obtain ⟨after, hcreate, hrest⟩ := bind_ok_iff.mp hperform
    obtain ⟨rfl, -⟩ := Prod.mk.inj (Except.ok.inj hrest)
    exact h.of_sameTables (getOrCreateTable_spec hcreate).1
  | append name =>
    obtain ⟨⟨after, commit⟩, happend, hrest⟩ := bind_ok_iff.mp hperform
    obtain ⟨rfl, -⟩ := Prod.mk.inj (Except.ok.inj hrest)
    exact h.append happend
  | writeSnapshots =>
    obtain ⟨after, hwrite, hrest⟩ := bind_ok_iff.mp hperform
    obtain ⟨rfl, -⟩ := Prod.mk.inj (Except.ok.inj hrest)
    rcases writeSnapshots_spec hwrite with rfl | rfl
    · exact h
    · exact h.of_sameTables (.of_tables_eq rfl)
  | writeCommit =>
    obtain ⟨after, hwrite, hrest⟩ := bind_ok_iff.mp hperform
    obtain ⟨rfl, -⟩ := Prod.mk.inj (Except.ok.inj hrest)
    rcases writeCommit_spec hwrite with rfl | rfl
    · exact h
    · exact h.of_sameTables (.of_tables_eq rfl)

theorem Sized.step (h : Sized facts lake) (hinvariant : Invariant root lake)
    {action : Action Metadata} (hstep : lake.step root facts action = some next) :
    Sized facts next := by
  cases action with
  | build generation content =>
    obtain ⟨-, hnext⟩ := Option.ite_none_right_eq_some.mp hstep
    obtain rfl := Option.some.inj hnext
    exact h.of_sameTables (.of_tables_eq rfl)
  | discard generation name =>
    obtain ⟨-, hnext⟩ := Option.ite_none_right_eq_some.mp hstep
    obtain rfl := Option.some.inj hnext
    exact h.of_sameTables (.of_tables_eq rfl)
  | begin request latest =>
    obtain ⟨⟨-, -, hlatest⟩, hnext⟩ := Option.ite_none_right_eq_some.mp hstep
    obtain rfl := Option.some.inj hnext
    exact h.of_sameTables (begin_sameTables hinvariant.consistent hlatest)
  | task choice =>
    simp only [Lake.step] at hstep
    split at hstep
    · cases hstep
    · rename_i publisher hpublisher
      obtain ⟨hallows, hnext⟩ := Option.ite_none_right_eq_some.mp hstep
      obtain rfl := Option.some.inj hnext
      unfold Lake.performNext
      split
      · exact h.of_sameTables (.of_tables_eq rfl)
      · split
        · exact h.of_sameTables (.of_tables_eq rfl)
        · rename_i after results hperform
          exact (h.perform hinvariant.consistent hperform).of_sameTables (.of_tables_eq rfl)
  | interrupt =>
    obtain rfl := Option.some.inj hstep
    exact h.of_sameTables (.of_tables_eq rfl)

theorem sized_of_reachable (h : (publications root facts).Reachable lake) :
    Sized facts lake := by
  refine Runs.System.Reached.invariant_of (fun _ => invariant_of_reachable) ?_ ?_ h
  · rintro _ rfl name file hfile
    exact absurd hfile List.not_mem_nil
  · intro _ _ _ hinvariant hsized _ hstep
    exact hsized.step hinvariant hstep

/-! ### Runs that can go on -/

/-- Every part can be read, and those of a table have one schema. -/
structure Readable (facts : PartFacts Metadata Schema) (schemaOf : TableName → Schema)
    (lake : Lake Metadata Schema) (generation : String) : Prop where
  same : ∀ name, facts.sameSchema (schemaOf name) (schemaOf name) = true
  created : ∀ name schema, (lake.tables name).schema = some schema → schema = schemaOf name
  inferred : ∀ name part, lake.staging generation name = some part →
    facts.inferSchema part = .ok (schemaOf name)
  snapshots : ∀ rows, facts.inferSchema (.snapshots rows) = .ok (schemaOf .snapshots)
  commits : ∀ rows, facts.inferSchema (.commits rows) = .ok (schemaOf .commits)
  counted : ∀ part, ∃ rows, facts.rowCount part = .ok rows

/-- The staging directory is the one that the files in the catalog came from, and what has been
    written down about snapshots is still the newest. -/
structure Resumable (root : String) (facts : PartFacts Metadata Schema)
    (lake : Lake Metadata Schema) (generation manifest dictionary : String) : Prop where
  staged : ∀ name ∈ recordedTables, (lake.staging generation name).isSome
  unchanged : ∀ name part old, lake.staging generation name = some part →
    lake.placed root name generation = some old → facts.fingerprint old = facts.fingerprint part
  kept : ∀ name, lake.staging generation name = none → lake.placed root name generation = none
  newest : ∀ part, lake.staging generation .snapshots = some part → ∀ name ∈ recordedTables,
    savedSnapshot part.snapshotRows name.text = (lake.tables name).versions.head?.map (·.id)
  receipt : ∀ part, lake.staging generation .commits = some part →
    ∃ now, part.commitRows = [⟨generation, "COMMITTED", manifest, dictionary, now⟩]

/-- A run that has done some tasks and can do the others. -/
structure Running (root : String) (facts : PartFacts Metadata Schema)
    (schemaOf : TableName → Schema) (lake : Lake Metadata Schema) (publisher : Publisher)
    (done : List Task) : Prop where
  advanced : Advanced root lake publisher.generation done publisher.results
  sized : Sized facts lake
  readable : Readable facts schemaOf lake publisher.generation
  resumable : Resumable root facts lake publisher.generation publisher.manifestFingerprint
    publisher.dictionaryFingerprint
  placed : ∀ name, Task.place name ∈ done →
    ∃ part, lake.placed root name publisher.generation = some part
  snapshots : Task.writeSnapshots ∈ done → (lake.staging publisher.generation .snapshots).isSome
  commits : Task.writeCommit ∈ done → (lake.staging publisher.generation .commits).isSome

theorem Readable.after {schemaOf : TableName → Schema}
    (h : Readable facts schemaOf lake generation)
    (hschema : ∀ name schema, (next.tables name).schema = some schema →
      (lake.tables name).schema = some schema ∨ schema = schemaOf name)
    (hstaging : ∀ name part, next.staging generation name = some part →
      lake.staging generation name = some part ∨
        facts.inferSchema part = .ok (schemaOf name)) :
    Readable facts schemaOf next generation where
  same := h.same
  created name schema hsome := (hschema name schema hsome).elim (h.created name schema) id
  inferred name part hpart := (hstaging name part hpart).elim (h.inferred name part) id
  snapshots := h.snapshots
  commits := h.commits
  counted := h.counted

/-- A step that leaves the staging directory and the snapshots of the tables alone. -/
theorem Resumable.after {manifest dictionary : String}
    (h : Resumable root facts lake generation manifest dictionary)
    (hstaging : next.staging = lake.staging)
    (hplaced : ∀ name old, next.placed root name generation = some old →
      lake.placed root name generation = some old ∨ lake.staging generation name = some old)
    (hversions : (lake.staging generation .snapshots).isSome → ∀ name ∈ recordedTables,
      (next.tables name).versions = (lake.tables name).versions) :
    Resumable root facts next generation manifest dictionary where
  staged name hname := hstaging ▸ h.staged name hname
  unchanged name part old hpart hold := by
    rw [hstaging] at hpart
    rcases hplaced name old hold with hold | hold
    · exact h.unchanged name part old hpart hold
    · rw [Option.some.inj (hold.symm.trans hpart)]
  kept name hnone := by
    rw [hstaging] at hnone
    rw [Option.eq_none_iff_forall_ne_some]
    intro old hold
    rcases hplaced name old hold with hold | hold
    · rw [h.kept name hnone] at hold
      cases hold
    · rw [hnone] at hold
      cases hold
  newest part hpart name hname := by
    rw [hstaging] at hpart
    rw [hversions (by rw [hpart]; rfl) name hname]
    exact h.newest part hpart name hname
  receipt part hpart := h.receipt part (hstaging ▸ hpart)

section Running

variable {schemaOf : TableName → Schema} {publisher : Publisher} {done rest : List Task}

theorem table_cases (name : TableName) :
    name ∈ recordedTables ∨ name = .snapshots ∨ name = .commits := by
  cases name <;> decide

/-- The part that a task places is there. -/
theorem Running.staged (h : Running root facts schemaOf lake publisher done)
    (hname : name ∈ recordedTables ∨ (name = .snapshots ∧ Task.writeSnapshots ∈ done) ∨
      (name = .commits ∧ Task.writeCommit ∈ done)) :
    ∃ part, lake.staging publisher.generation name = some part := by
  apply Option.isSome_iff_exists.mp
  rcases hname with hname | ⟨rfl, hdone⟩ | ⟨rfl, hdone⟩
  · exact h.resumable.staged name hname
  · exact h.snapshots hdone
  · exact h.commits hdone

theorem source_ready {task : Task} (hdone : done ++ task :: rest = publication true)
    (htask : task = .place name ∨ task = .create name) :
    name ∈ recordedTables ∨ (name = .snapshots ∧ Task.writeSnapshots ∈ done) ∨
      (name = .commits ∧ Task.writeCommit ∈ done) := by
  rcases htask with rfl | rfl <;> rw [done_eq hdone] <;> cases name <;> decide

theorem Running.place (h : Running root facts schemaOf lake publisher done)
    (hdone : done ++ .place name :: rest = publication true) :
    ∃ next, lake.place root facts publisher.generation name = .ok next := by
  obtain ⟨part, hpart⟩ := h.staged (source_ready hdone (.inl rfl))
  rw [Lake.place, stagedPart_ok.mpr hpart, ok_bind, h.readable.inferred name part hpart, ok_bind]
  cases hplaced : lake.placed root name publisher.generation with
  | none => exact ⟨_, rfl⟩
  | some old =>
    dsimp only
    rw [if_pos (h.resumable.unchanged name part old hpart hplaced)]
    exact ⟨_, rfl⟩

theorem Running.create (h : Running root facts schemaOf lake publisher done)
    (hdone : done ++ .create name :: rest = publication true) (choice : Choice) :
    ∃ next, lake.getOrCreateTable facts publisher.generation name choice = .ok next := by
  obtain ⟨part, hpart⟩ := h.staged (source_ready hdone (.inr rfl))
  rw [Lake.getOrCreateTable, stagedPart_ok.mpr hpart, ok_bind, h.readable.inferred name part hpart,
    ok_bind]
  cases hschema : (lake.tables name).schema with
  | none => exact ⟨_, rfl⟩
  | some current =>
    dsimp only
    rw [h.readable.created name current hschema, if_pos (h.readable.same name)]
    exact ⟨_, rfl⟩

theorem Running.append (h : Running root facts schemaOf lake publisher done)
    (hdone : done ++ .append name :: rest = publication true) (choice : Choice) :
    ∃ next commit,
      lake.appendFile root facts publisher.generation name choice = .ok (next, commit) := by
  have hplace : Task.place name ∈ done := by
    rw [done_eq hdone]
    cases name <;> decide
  obtain ⟨part, hpart⟩ := h.placed name hplace
  obtain ⟨rows, hrows⟩ := h.readable.counted part
  have hfast : ∃ next commit,
      lake.fastAppend root facts publisher.generation name part choice = .ok (next, commit) := by
    rw [Lake.fastAppend, hrows]
    exact ⟨_, _, rfl⟩
  rw [Lake.appendFile, hpart]
  dsimp only
  split
  · exact hfast
  · rename_i version older hversions
    split
    · exact hfast
    · rename_i existing hfound
      have huri : existing.filePath = fileUri root name publisher.generation := by
        simpa using List.find?_some hfound
      have hcurrent : existing ∈ current (lake.tables name).versions := by
        rw [hversions]
        exact List.mem_of_find?_eq_some hfound
      have hsize := h.sized name existing hcurrent part (huri ▸ hpart)
      rw [if_pos hsize]
      exact ⟨_, _, rfl⟩

theorem Running.writeSnapshots (h : Running root facts schemaOf lake publisher done)
    (hdone : done ++ .writeSnapshots :: rest = publication true) :
    ∃ next, lake.writeSnapshots publisher.generation publisher.results = .ok next := by
  have happended : appended done = recordedTables := by
    rw [done_eq hdone]
    decide
  have hresults := h.advanced.progress.results
  rw [happended] at hresults
  rw [Lake.writeSnapshots]
  cases hpart : lake.staging publisher.generation .snapshots with
  | none => exact ⟨_, rfl⟩
  | some part =>
    have hrecord : SnapshotRecord root lake publisher.generation part.snapshotRows :=
      h.advanced.consistent.parts _ .snapshots part (.inl hpart)
    have hlength : part.snapshotRows.length = publisher.results.length := by
      have htables := congrArg List.length hrecord.tables
      rw [List.length_map, List.length_map] at htables
      rw [htables, hresults.length_eq]
    have hsaved : ∀ table ∈ publisher.results,
        savedSnapshot part.snapshotRows table.tableName = some table.icebergSnapshotId := by
      intro table htable
      obtain ⟨name, hname, hcovers⟩ := exists_left_of_mem hresults table htable
      rw [hcovers.table, h.resumable.newest part hpart name hname, hcovers.newest]
    dsimp only
    rw [if_neg (by simpa using hlength), if_pos hsaved]
    exact ⟨_, rfl⟩

theorem Running.writeCommit (h : Running root facts schemaOf lake publisher done) (now : Int) :
    ∃ next, lake.writeCommit publisher.generation publisher.manifestFingerprint
      publisher.dictionaryFingerprint now = .ok next := by
  rw [Lake.writeCommit]
  cases hpart : lake.staging publisher.generation .commits with
  | none => exact ⟨_, rfl⟩
  | some part =>
    obtain ⟨saved, hrows⟩ := h.resumable.receipt part hpart
    dsimp only
    rw [hrows]
    exact ⟨lake, if_pos ⟨rfl, rfl, rfl, rfl⟩⟩

/-- A task that writes no part has been done. -/
theorem Running.advance (h : Running root facts schemaOf lake publisher done) {task : Task}
    {results : List TableCommit} (htask : task ≠ .writeSnapshots ∧ task ≠ .writeCommit)
    (hadvanced : Advanced root next publisher.generation (done ++ [task]) results)
    (hsized : Sized facts next) (hstaging : next.staging = lake.staging)
    (hextends : Extends root lake next)
    (hplaced : ∀ name old, next.placed root name publisher.generation = some old →
      lake.placed root name publisher.generation = some old ∨
        lake.staging publisher.generation name = some old)
    (hversions : (lake.staging publisher.generation .snapshots).isSome →
      ∀ name ∈ recordedTables, (next.tables name).versions = (lake.tables name).versions)
    (hschema : ∀ name schema, (next.tables name).schema = some schema →
      (lake.tables name).schema = some schema ∨ schema = schemaOf name)
    (hnew : ∀ name, task = .place name →
      ∃ part, next.placed root name publisher.generation = some part) :
    Running root facts schemaOf next { publisher with results, todo := rest }
      (done ++ [task]) where
  advanced := hadvanced
  sized := hsized
  readable := h.readable.after hschema fun name part hpart => .inl (hstaging ▸ hpart)
  resumable := h.resumable.after hstaging hplaced hversions
  placed name hname := by
    rcases List.mem_append.mp hname with hname | hname
    · exact (h.placed name hname).imp fun _ hpart => hextends.placed hpart
    · exact hnew name (List.mem_singleton.mp hname).symm
  snapshots hwritten := by
    rcases List.mem_append.mp hwritten with hwritten | hwritten
    · exact hstaging ▸ h.snapshots hwritten
    · exact absurd (List.mem_singleton.mp hwritten).symm htask.1
  commits hwritten := by
    rcases List.mem_append.mp hwritten with hwritten | hwritten
    · exact hstaging ▸ h.commits hwritten
    · exact absurd (List.mem_singleton.mp hwritten).symm htask.2

theorem place_isSome (h : lake.place root facts generation name = .ok next) :
    ∃ part, next.placed root name generation = some part := by
  obtain ⟨part, -, h⟩ := bind_ok_iff.mp h
  obtain ⟨-, -, h⟩ := bind_ok_iff.mp h
  split at h
  · rename_i existing hexisting
    split at h
    · exact ⟨existing, Except.ok.inj h ▸ hexisting⟩
    · cases h
  · obtain rfl := Except.ok.inj h
    exact ⟨part, by rw [Lake.placed, setTable_self, putFile_data, Function.update_self]⟩

theorem place_schema (h : lake.place root facts generation name = .ok next) (table : TableName) :
    (next.tables table).schema = (lake.tables table).schema := by
  rcases place_spec h with rfl | ⟨_, -, -, rfl⟩
  · rfl
  · by_cases htable : table = name
    · subst htable
      rw [setTable_self]
      rfl
    · rw [setTable_of_ne htable]

theorem appendFile_schema {choice : Choice} {commit : TableCommit}
    (h : lake.appendFile root facts generation name choice = .ok (next, commit))
    (table : TableName) : (next.tables table).schema = (lake.tables table).schema := by
  obtain ⟨-, -, ⟨rfl, -⟩ | ⟨-, -, _, -, new, -, hschema, -, rfl⟩⟩ := appendFile_spec h
  · rfl
  · by_cases htable : table = name
    · subst htable
      rw [setTable_self, hschema]
    · rw [setTable_of_ne htable]

theorem Running.placeStep (h : Running root facts schemaOf lake publisher done)
    (hdone : done ++ .place name :: rest = publication true)
    (hplace : lake.place root facts publisher.generation name = .ok next) :
    Running root facts schemaOf next { publisher with todo := rest } (done ++ [.place name]) := by
  apply h.advance
  · exact ⟨by rintro ⟨⟩, by rintro ⟨⟩⟩
  · exact h.advanced.place hplace
  · exact h.sized.place h.advanced.consistent hplace
  · exact place_staging hplace
  · exact place_extends hplace
  · intro table old hold
    rcases place_placed hplace hold with hold | ⟨-, rfl, hstaged⟩
    · exact .inl hold
    · exact .inr hstaged
  · exact fun _ table _ => place_versions hplace table
  · intro table schema hschema
    exact .inl (place_schema hplace table ▸ hschema)
  · rintro _ ⟨⟩
    exact place_isSome hplace

theorem Running.createStep (h : Running root facts schemaOf lake publisher done)
    (hdone : done ++ .create name :: rest = publication true) {choice : Choice}
    (hcreate : lake.getOrCreateTable facts publisher.generation name choice = .ok next) :
    Running root facts schemaOf next { publisher with todo := rest } (done ++ [.create name]) := by
  obtain ⟨hsame, hstaging⟩ := getOrCreateTable_spec hcreate
  apply h.advance
  · exact ⟨by rintro ⟨⟩, by rintro ⟨⟩⟩
  · exact h.advanced.create hcreate
  · exact h.sized.of_sameTables hsame
  · exact hstaging
  · exact hsame.extends
  · exact fun table old hold => .inl ((hsame.placed table _).symm.trans hold)
  · exact fun _ table _ => (hsame table).2
  · intro table schema hschema
    obtain ⟨part, hpart, hrest⟩ := bind_ok_iff.mp hcreate
    obtain ⟨inferred, hinferred, hrest⟩ := bind_ok_iff.mp hrest
    rw [h.readable.inferred name part (stagedPart_ok.mp hpart)] at hinferred
    obtain rfl := Except.ok.inj hinferred
    split at hrest
    · split at hrest
      · obtain rfl := Except.ok.inj hrest
        exact .inl hschema
      · cases hrest
    · obtain rfl := Except.ok.inj hrest
      by_cases htable : table = name
      · subst htable
        rw [setTable_self] at hschema
        exact .inr (Option.some.inj hschema).symm
      · rw [setTable_of_ne htable] at hschema
        exact .inl hschema
  · rintro _ ⟨⟩

/-- A generation that has written down its snapshots is listed already. -/
theorem Consistent.listed_of_record {rows : List SnapshotRow} (h : Consistent root lake)
    (hrecord : SnapshotRecord root lake generation rows) (hname : name ∈ recordedTables) :
    lake.Listed root name generation := by
  have htables : name.text ∈ rows.map (·.tableName) := by
    rw [hrecord.tables]
    exact List.mem_map_of_mem hname
  obtain ⟨row, hrow, htable⟩ := List.mem_map.mp htables
  exact h.listed (hrecord.listsAt name hname row hrow htable)

theorem Running.appendStep (h : Running root facts schemaOf lake publisher done)
    (hdone : done ++ .append name :: rest = publication true) {choice : Choice}
    {commit : TableCommit} (hallows : lake.Allows choice (.append name))
    (happend : lake.appendFile root facts publisher.generation name choice = .ok (next, commit)) :
    Running root facts schemaOf next
      { publisher with results := publisher.results ++ [commit], todo := rest }
      (done ++ [.append name]) := by
  apply h.advance
  · exact ⟨by rintro ⟨⟩, by rintro ⟨⟩⟩
  · exact h.advanced.append hdone hallows happend
  · exact h.sized.append happend
  · exact appendFile_staging happend
  · exact appendFile_extends happend
  · exact fun table old hold => .inl ((appendFile_placed happend table _).symm.trans hold)
  · intro hsome table htable
    by_cases hname : table = name
    · subst hname
      obtain ⟨part, hpart⟩ := Option.isSome_iff_exists.mp hsome
      have hrecord : SnapshotRecord root lake publisher.generation part.snapshotRows :=
        h.advanced.consistent.parts _ .snapshots part (.inl hpart)
      have hlisted := h.advanced.consistent.listed_of_record hrecord htable
      obtain ⟨-, -, ⟨rfl, -⟩ | ⟨hnot, -⟩⟩ := appendFile_spec happend
      · rfl
      · exact absurd hlisted hnot
    · exact appendFile_versions happend hname
  · intro table schema hschema
    exact .inl (appendFile_schema happend table ▸ hschema)
  · rintro _ ⟨⟩

/-- The part that a run has written, or found. -/
theorem Running.writeStep (h : Running root facts schemaOf lake publisher done) {task : Task}
    {part : Part Metadata} (hname : name = .snapshots ∧ task = .writeSnapshots ∨
      name = .commits ∧ task = .writeCommit)
    (hadvanced : Advanced root next publisher.generation (done ++ [task]) publisher.results)
    (hnone : lake.staging publisher.generation name = none)
    (hnext : next = lake.setPart publisher.generation name (some part))
    (hinferred : facts.inferSchema part = .ok (schemaOf name))
    (hnewest : name = .snapshots → ∀ table ∈ recordedTables,
      savedSnapshot part.snapshotRows table.text = (lake.tables table).versions.head?.map (·.id))
    (hreceipt : name = .commits → ∃ now, part.commitRows = [⟨publisher.generation, "COMMITTED",
      publisher.manifestFingerprint, publisher.dictionaryFingerprint, now⟩]) :
    Running root facts schemaOf next { publisher with todo := rest } (done ++ [task]) := by
  subst hnext
  have hold : ∀ {table held}, lake.staging publisher.generation table = some held →
      (lake.setPart publisher.generation name (some part)).staging publisher.generation table =
        some held := fun hheld => setPart_staging_of_none hnone hheld
  have hself : (lake.setPart publisher.generation name (some part)).staging publisher.generation
      name = some part := by
    simp [setPart]
  have hplace : ∀ table, task ≠ .place table := by
    intro table htask
    rcases hname with ⟨-, rfl⟩ | ⟨-, rfl⟩ <;> cases htask
  constructor
  · exact hadvanced
  · exact h.sized.of_sameTables (.of_tables_eq rfl)
  · apply h.readable.after
    · exact fun _ _ hschema => .inl hschema
    · intro table held hheld
      rcases setPart_staging hheld with hheld | ⟨-, rfl, hnew⟩
      · exact .inl hheld
      · exact .inr (Option.some.inj hnew ▸ hinferred)
  · constructor
    · intro table htable
      obtain ⟨held, hheld⟩ := Option.isSome_iff_exists.mp (h.resumable.staged table htable)
      rw [hold hheld]
      rfl
    · intro table held old hheld hplaced
      rcases setPart_staging hheld with hheld | ⟨-, rfl, -⟩
      · exact h.resumable.unchanged table held old hheld hplaced
      · have habsent := h.resumable.kept table hnone
        rw [Lake.placed] at habsent hplaced
        rw [setPart_tables, habsent] at hplaced
        cases hplaced
    · intro table hmissing
      refine h.resumable.kept table ?_
      rw [Option.eq_none_iff_forall_ne_some]
      intro held hheld
      rw [hold hheld] at hmissing
      cases hmissing
    · intro held hheld table htable
      rcases setPart_staging hheld with hheld | ⟨-, hsnapshots, hnew⟩
      · exact h.resumable.newest held hheld table htable
      · exact Option.some.inj hnew ▸ hnewest hsnapshots.symm table htable
    · intro held hheld
      rcases setPart_staging hheld with hheld | ⟨-, hcommits, hnew⟩
      · exact h.resumable.receipt held hheld
      · exact Option.some.inj hnew ▸ hreceipt hcommits.symm
  · intro table htable
    rcases List.mem_append.mp htable with htable | htable
    · exact h.placed table htable
    · exact absurd (List.mem_singleton.mp htable).symm (hplace table)
  · intro hwritten
    rcases List.mem_append.mp hwritten with hwritten | hwritten
    · obtain ⟨held, hheld⟩ := Option.isSome_iff_exists.mp (h.snapshots hwritten)
      rw [hold hheld]
      rfl
    · rcases hname with ⟨rfl, -⟩ | ⟨-, rfl⟩
      · rw [hself]
        rfl
      · cases List.mem_singleton.mp hwritten
  · intro hwritten
    rcases List.mem_append.mp hwritten with hwritten | hwritten
    · obtain ⟨held, hheld⟩ := Option.isSome_iff_exists.mp (h.commits hwritten)
      rw [hold hheld]
      rfl
    · rcases hname with ⟨-, rfl⟩ | ⟨rfl, -⟩
      · cases List.mem_singleton.mp hwritten
      · rw [hself]
        rfl

theorem Running.foundStep (h : Running root facts schemaOf lake publisher done) {task : Task}
    (hname : name = .snapshots ∧ task = .writeSnapshots ∨ name = .commits ∧ task = .writeCommit)
    (hadvanced : Advanced root lake publisher.generation (done ++ [task]) publisher.results)
    (hstaged : (lake.staging publisher.generation name).isSome) :
    Running root facts schemaOf lake { publisher with todo := rest } (done ++ [task]) where
  advanced := hadvanced
  sized := h.sized
  readable := h.readable
  resumable := h.resumable
  placed table htable := by
    rcases List.mem_append.mp htable with htable | htable
    · exact h.placed table htable
    · obtain rfl := List.mem_singleton.mp htable
      rcases hname with ⟨-, hwrite⟩ | ⟨-, hwrite⟩ <;> cases hwrite
  snapshots hwritten := by
    rcases List.mem_append.mp hwritten with hwritten | hwritten
    · exact h.snapshots hwritten
    · obtain rfl := List.mem_singleton.mp hwritten
      rcases hname with ⟨rfl, -⟩ | ⟨-, hwrite⟩
      · exact hstaged
      · cases hwrite
  commits hwritten := by
    rcases List.mem_append.mp hwritten with hwritten | hwritten
    · exact h.commits hwritten
    · obtain rfl := List.mem_singleton.mp hwritten
      rcases hname with ⟨-, hwrite⟩ | ⟨rfl, -⟩
      · cases hwrite
      · exact hstaged

/-- What a run has noted of a table is what it writes down. -/
theorem savedSnapshot_results {results : List TableCommit}
    (h : List.Forall₂ (Covers root lake generation) recordedTables results)
    (hname : name ∈ recordedTables) :
    savedSnapshot (results.map (snapshotRow generation)) name.text =
      (lake.tables name).versions.head?.map (·.id) := by
  have htables : (results.map (snapshotRow generation)).map (·.tableName) =
      recordedTables.map TableName.text := by
    rw [List.map_map, ← List.forall₂_eq_eq_eq, List.forall₂_map_left_iff,
      List.forall₂_map_right_iff]
    exact h.flip.imp fun _ _ hcommit => hcommit.table
  have hnodup : ((results.map (snapshotRow generation)).map (·.tableName)).Nodup := by
    rw [htables]
    exact List.Nodup.map TableName.text_injective (by decide)
  obtain ⟨commit, hcommit, hcovers⟩ := exists_right_of_mem h name hname
  have hsaved := savedSnapshot_of_mem hnodup (List.mem_map_of_mem hcommit)
  rw [← hcovers.table, hcovers.newest]
  exact hsaved

theorem Running.writeSnapshotsStep (h : Running root facts schemaOf lake publisher done)
    (hdone : done ++ .writeSnapshots :: rest = publication true)
    (hwrite : lake.writeSnapshots publisher.generation publisher.results = .ok next) :
    Running root facts schemaOf next { publisher with todo := rest }
      (done ++ [.writeSnapshots]) := by
  have hadvanced := h.advanced.writeSnapshots hdone hwrite
  cases hpart : lake.staging publisher.generation .snapshots with
  | some part =>
    obtain rfl := writeSnapshots_staged hpart hwrite
    exact h.foundStep (.inl ⟨rfl, rfl⟩) hadvanced (by rw [hpart]; rfl)
  | none =>
    have hnext : next = lake.setPart publisher.generation .snapshots
        (some (.snapshots (publisher.results.map (snapshotRow publisher.generation)))) := by
      rw [Lake.writeSnapshots, hpart] at hwrite
      exact (Except.ok.inj hwrite).symm
    have happended : appended done = recordedTables := by
      rw [done_eq hdone]
      decide
    have hresults := h.advanced.progress.results
    rw [happended] at hresults
    apply h.writeStep (.inl ⟨rfl, rfl⟩) hadvanced hpart hnext (h.readable.snapshots _)
    · exact fun _ table htable => savedSnapshot_results hresults htable
    · intro hcommits
      cases hcommits

theorem Running.writeCommitStep (h : Running root facts schemaOf lake publisher done) {now : Int}
    (hwrite : lake.writeCommit publisher.generation publisher.manifestFingerprint
      publisher.dictionaryFingerprint now = .ok next) :
    Running root facts schemaOf next { publisher with todo := rest } (done ++ [.writeCommit]) := by
  have hadvanced := h.advanced.writeCommit hwrite
  cases hpart : lake.staging publisher.generation .commits with
  | some part =>
    obtain rfl := writeCommit_staged hpart hwrite
    exact h.foundStep (.inr ⟨rfl, rfl⟩) hadvanced (by rw [hpart]; rfl)
  | none =>
    have hnext : next = lake.setPart publisher.generation .commits (some (.commits
        [⟨publisher.generation, "COMMITTED", publisher.manifestFingerprint,
          publisher.dictionaryFingerprint, now⟩])) := by
      rw [Lake.writeCommit, hpart] at hwrite
      exact (Except.ok.inj hwrite).symm
    apply h.writeStep (.inr ⟨rfl, rfl⟩) hadvanced hpart hnext (h.readable.commits _)
    · intro hsnapshots
      cases hsnapshots
    · exact fun _ => ⟨now, rfl⟩

theorem exists_fresh (ids : List Int) : ∃ id : Int, 0 < id ∧ id ∉ ids := by
  have hbound : ∃ bound : Int, ∀ id ∈ ids, id ≤ bound := by
    induction ids with
    | nil => exact ⟨0, fun _ hid => absurd hid List.not_mem_nil⟩
    | cons id ids ih =>
      obtain ⟨bound, hbound⟩ := ih
      refine ⟨max id bound, fun other hother => ?_⟩
      rcases List.mem_cons.mp hother with rfl | hother
      · exact Int.le_max_left ..
      · exact Int.le_trans (hbound other hother) (Int.le_max_right ..)
  obtain ⟨bound, hbound⟩ := hbound
  refine ⟨max bound 0 + 1, by omega, fun hid => ?_⟩
  have := hbound _ hid
  omega

/-- **A run that can go on does its next task.** -/
theorem Running.perform (h : Running root facts schemaOf lake publisher done) {task : Task}
    (hdone : done ++ task :: rest = publication true) :
    ∃ choice next results, lake.Allows choice task ∧
      lake.perform root facts publisher choice task = .ok (next, results) ∧
        Running root facts schemaOf next { publisher with results, todo := rest }
          (done ++ [task]) := by
  cases task with
  | openCatalog =>
    let choice : Choice := ⟨0, "", "", 0⟩
    have hopen : lake.perform root facts publisher choice .openCatalog =
        .ok ({ lake with opened := true }, publisher.results) := rfl
    refine ⟨choice, _, _, trivial, hopen, ?_⟩
    have hsame : SameTables lake { lake with opened := true } := .of_tables_eq rfl
    apply h.advance ⟨by rintro ⟨⟩, by rintro ⟨⟩⟩ (h.advanced.perform hdone trivial hopen)
      (h.sized.of_sameTables hsame) rfl hsame.extends
    · exact fun _ _ hold => .inl hold
    · exact fun _ _ _ => rfl
    · exact fun _ _ hschema => .inl hschema
    · rintro _ ⟨⟩
  | place name =>
    obtain ⟨next, hplace⟩ := h.place hdone
    refine ⟨⟨0, "", "", 0⟩, next, _, trivial, bind_ok_iff.mpr ⟨next, hplace, rfl⟩, ?_⟩
    exact h.placeStep hdone hplace
  | create name =>
    obtain ⟨next, hcreate⟩ := h.create hdone ⟨0, "", "", 0⟩
    refine ⟨⟨0, "", "", 0⟩, next, _, trivial, bind_ok_iff.mpr ⟨next, hcreate, rfl⟩, ?_⟩
    exact h.createStep hdone hcreate
  | append name =>
    obtain ⟨id, hpositive, hfresh⟩ := exists_fresh ((lake.tables name).versions.map (·.id))
    obtain ⟨next, commit, happend⟩ := h.append hdone ⟨id, "", "", 0⟩
    refine ⟨_, next, _, ⟨hpositive, hfresh⟩,
      bind_ok_iff.mpr ⟨(next, commit), happend, rfl⟩, ?_⟩
    exact h.appendStep hdone ⟨hpositive, hfresh⟩ happend
  | writeSnapshots =>
    obtain ⟨next, hwrite⟩ := h.writeSnapshots hdone
    refine ⟨⟨0, "", "", 0⟩, next, _, trivial, bind_ok_iff.mpr ⟨next, hwrite, rfl⟩, ?_⟩
    exact h.writeSnapshotsStep hdone hwrite
  | writeCommit =>
    obtain ⟨next, hwrite⟩ := h.writeCommit 0
    refine ⟨⟨0, "", "", 0⟩, next, _, trivial, bind_ok_iff.mpr ⟨next, hwrite, rfl⟩, ?_⟩
    exact h.writeCommitStep hwrite

/-- The publisher of a catalog is no part of what a run needs. -/
theorem Running.setPublisher (h : Running root facts schemaOf lake publisher done)
    (current : Option Publisher) :
    Running root facts schemaOf { lake with publisher := current } publisher done where
  advanced := by
    refine h.advanced.of_sameTables ?_ ?_ ?_
    · exact .of_tables_eq rfl
    · exact fun _ hschema => hschema
    · exact fun _ _ _ hpart => .inl hpart
  sized := h.sized.of_sameTables (.of_tables_eq rfl)
  readable := h.readable.after (fun _ _ hschema => .inl hschema) fun _ _ hpart => .inl hpart
  resumable := h.resumable.after rfl (fun _ _ hold => .inl hold) fun _ _ _ => rfl
  placed := h.placed
  snapshots := h.snapshots
  commits := h.commits

/-- **A run that can go on comes to its end**, with its generation committed. -/
theorem Running.finish (h : Running root facts schemaOf lake publisher done)
    (hpublisher : lake.publisher = some publisher)
    (hdone : done ++ publisher.todo = publication true) :
    ∃ (choices : List Choice) (next : Lake Metadata Schema),
      Runs.runSteps (Lake.step root facts) lake (choices.map Action.task) = some next ∧
        next.Committed root publisher.generation := by
  generalize htodo : publisher.todo = todo at hdone
  induction todo generalizing lake publisher done with
  | nil =>
    rw [List.append_nil] at hdone
    have hcommits : TableName.commits ∈ appended done := by
      rw [hdone]
      decide
    obtain ⟨commit, -, hcovers⟩ := h.advanced.progress.covers hcommits
    exact ⟨[], lake, rfl, h.advanced.consistent.listed hcovers.own⟩
  | cons task rest ih =>
    obtain ⟨choice, after, results, hallows, hperform, hrunning⟩ := h.perform hdone
    let advanced : Publisher := { publisher with results, todo := rest }
    have hstep : lake.step root facts (.task choice) =
        some { after with publisher := some advanced } := by
      simp only [Lake.step, hpublisher]
      rw [if_pos (by rw [htodo]; rintro _ ⟨⟩; exact hallows)]
      simp only [Lake.performNext, htodo, hperform, advanced]
    have hrest : (done ++ [task]) ++ rest = publication true := by
      rw [List.append_assoc]
      exact hdone
    obtain ⟨choices, next, hrun, hcommitted⟩ :=
      ih (hrunning.setPublisher (some advanced)) rfl rfl hrest
    refine ⟨choice :: choices, next, ?_, hcommitted⟩
    rw [List.map_cons]
    exact Option.bind_eq_some_iff.mpr ⟨_, hstep, hrun⟩

end Running

/-- A run that has begun. -/
theorem begin_publisher {request : IndexRequest} {latest : Option CommitRow}
    (hstep : lake.step root facts (.begin request latest) = some next) {publisher : Publisher}
    (hpublisher : next.publisher = some publisher) :
    publisher.generation = request.generation ∧
      publisher.manifestFingerprint = request.manifestFingerprint ∧
      publisher.dictionaryFingerprint = request.dictionaryFingerprint ∧
      publisher.todo = publication (next.staging request.generation .pathSources).isSome := by
  obtain ⟨⟨hidle, -, -⟩, hnext⟩ := Option.ite_none_right_eq_some.mp hstep
  obtain rfl := Option.some.inj hnext
  unfold Lake.begin at hpublisher ⊢
  split at hpublisher
  · rw [Option.isNone_iff_eq_none.mp hidle] at hpublisher
    cases hpublisher
  · obtain rfl := Option.some.inj hpublisher
    exact ⟨rfl, rfl, rfl, rfl⟩

/-- **When a publication that was cut off can be finished.** A run of an uncommitted generation
    begins again, its staging directory is as it was, and every part can be read.  The run can
    be led to its commit just when the snapshots that the generation may have written down are
    the newest ones of their tables. -/
theorem resumed_publication_commits_iff (h : (publications root facts).Reachable lake)
    {request : IndexRequest} {latest : Option CommitRow}
    (hbegin : lake.step root facts (.begin request latest) = some next)
    {publisher : Publisher} (hpublisher : next.publisher = some publisher)
    (huncommitted : ¬HasCommit root lake request.generation)
    {schemaOf : TableName → Schema}
    (hreadable : Readable facts schemaOf next request.generation)
    (hstaged : ∀ name ∈ recordedTables, (next.staging request.generation name).isSome)
    (hunchanged : ∀ name part old, next.staging request.generation name = some part →
      next.placed root name request.generation = some old →
        facts.fingerprint old = facts.fingerprint part)
    (hkept : ∀ name, next.staging request.generation name = none →
      next.placed root name request.generation = none)
    (hreceipt : ∀ part, next.staging request.generation .commits = some part →
      ∃ now, part.commitRows = [⟨request.generation, "COMMITTED", request.manifestFingerprint,
        request.dictionaryFingerprint, now⟩]) :
    (∃ (choices : List Choice) (last : Lake Metadata Schema),
      Runs.runSteps (Lake.step root facts) next (choices.map Action.task) = some last ∧
        HasCommit root last request.generation) ↔
      ∀ part, next.staging request.generation .snapshots = some part →
        ∀ name ∈ recordedTables, savedSnapshot part.snapshotRows name.text =
          (next.tables name).versions.head?.map (·.id) := by
  have hinvariant := invariant_of_reachable h
  have hnextInvariant := hinvariant.step hbegin
  have hnext := hnextInvariant.consistent
  obtain ⟨hgeneration, hmanifest, hdictionary, htodo⟩ := begin_publisher hbegin hpublisher
  have hsame : SameTables lake next := by
    obtain ⟨⟨-, -, hlatest⟩, hbegun⟩ := Option.ite_none_right_eq_some.mp hbegin
    exact Option.some.inj hbegun ▸ begin_sameTables hinvariant.consistent hlatest
  constructor
  · rintro ⟨choices, last, hrun, hcommit⟩ part hpart name hname
    have hrecord : SnapshotRecord root next request.generation part.snapshotRows :=
      hnext.parts request.generation .snapshots part (.inl hpart)
    have hrow : name.text ∈ part.snapshotRows.map (·.tableName) := by
      rw [hrecord.tables]
      exact List.mem_map_of_mem hname
    obtain ⟨row, hrow, htable⟩ := List.mem_map.mp hrow
    have hnodup : (part.snapshotRows.map (·.tableName)).Nodup := by
      rw [hrecord.tables]
      exact List.Nodup.map TableName.text_injective (by decide)
    have hsaved := savedSnapshot_of_mem hnodup hrow
    rw [htable] at hsaved
    rw [hsaved]
    by_contra hnewest
    -- otherwise the generation has been overtaken, and no run commits it
    have hovertaken : Overtaken root next request.generation := by
      refine ⟨⟨part, hpart, name, hname, _, hsaved, ?_, fun heq => hnewest heq.symm⟩, ?_, ?_⟩
      · obtain ⟨version, hversion, hid, -⟩ := hrecord.saved hname hsaved
        exact List.mem_map.mpr ⟨version, hversion, hid⟩
      · intro hcommitted
        exact huncommitted (hinvariant.consistent.hasCommit.mpr (hsame.listed.mp hcommitted))
      · intro current hcurrent _
        obtain rfl := Option.some.inj (hpublisher.symm.trans hcurrent)
        rw [htodo]
        cases (next.staging request.generation .pathSources).isSome <;> decide
    have hkeep : (Action.discard request.generation .snapshots : Action Metadata) ∉
        choices.map Action.task := by
      simp
    apply (hovertaken.run hnextInvariant hkeep hrun).uncommitted
    exact (run_keeps hnextInvariant hrun).1.consistent.hasCommit.mp hcommit
  · intro hnewest
    obtain ⟨done, hdone, hprogress⟩ := (hnextInvariant.publishing publisher hpublisher).progress
    have hnil : done = [] := by
      rw [htodo, hstaged .pathSources (by decide)] at hdone
      exact List.append_left_eq_self.mp hdone
    subst hnil
    have hrunning : Running root facts schemaOf next publisher [] := by
      refine ⟨⟨hnext, hprogress⟩, ?_, hgeneration ▸ hreadable, ?_, ?_, ?_, ?_⟩
      · exact sized_of_reachable (.step h trivial hbegin)
      · rw [hgeneration, hmanifest, hdictionary]
        exact ⟨hstaged, hunchanged, hkept, hnewest, hreceipt⟩
      · exact fun _ hin => absurd hin List.not_mem_nil
      · exact fun hin => absurd hin List.not_mem_nil
      · exact fun hin => absurd hin List.not_mem_nil
    obtain ⟨choices, last, hrun, hcommitted⟩ := hrunning.finish hpublisher hdone
    refine ⟨choices, last, hrun, ?_⟩
    rw [← hgeneration]
    exact (run_keeps hnextInvariant hrun).1.consistent.hasCommit.mpr hcommitted

/-- The second generation is cut off behind its record. -/
def cutOffGeneration : List (Action Nat) :=
  firstGeneration ++ [.build "2" fun _ => some 8] ++
    [.begin (plainRequest "2" true "eta") (plainCommit "1" 1)] ++ plainTasks 17 101 ++ [.interrupt]

theorem resumed_publication_commits_two : ∃ lake next : Lake Nat Unit,
    lake.step "" plainFacts (.begin (plainRequest "2" true "eta") (plainCommit "1" 1)) =
      some next ∧ (next.staging "2" .snapshots).isSome ∧ ¬HasCommit "" lake "2" ∧
        ∃ (choices : List Choice) (last : Lake Nat Unit),
          Runs.runSteps (Lake.step "" plainFacts) next (choices.map Action.task) = some last ∧
            HasCommit "" last "2" := by
  have hrun : (Runs.runSteps (Lake.step "" plainFacts) emptyLake cutOffGeneration).any
      (fun lake => ¬HasCommit "" lake "2" ∧
        (lake.step "" plainFacts (.begin (plainRequest "2" true "eta") (plainCommit "1" 1))).any
          fun next => next.publisher.isSome ∧ (∀ name ∈ recordedTables,
            (next.staging "2" name).isSome ∧ ∀ part ∈ next.staging "2" .snapshots,
              savedSnapshot part.snapshotRows name.text =
                (next.tables name).versions.head?.map (·.id)) ∧
            (next.staging "2" .snapshots).isSome ∧ (next.staging "2" .commits).isNone ∧
              (next.placed "" .commits "2").isNone) = true := by
    decide +kernel
  obtain ⟨lake, hlake, hcut⟩ := (Option.any_eq_true _ _).mp hrun
  obtain ⟨huncommitted, hany⟩ := of_decide_eq_true hcut
  obtain ⟨next, hbegin, hready⟩ := (Option.any_eq_true _ _).mp hany
  obtain ⟨hpublisher, hrecorded, hsnapshots, hcommits, hplaced⟩ := of_decide_eq_true hready
  obtain ⟨publisher, hpublisher⟩ := Option.isSome_iff_exists.mp hpublisher
  have hnone := Option.isNone_iff_eq_none.mp hcommits
  refine ⟨lake, next, hbegin, hsnapshots, huncommitted, ?_⟩
  refine (@resumed_publication_commits_iff _ _ _ plainFacts lake next (plainRun_reachable hlake)
    _ _ hbegin publisher hpublisher huncommitted (fun _ => ()) ?_ ?_ ?_ ?_ ?_).mpr ?_
  · exact ⟨fun _ => rfl, fun _ _ _ => rfl, fun _ _ _ => rfl, fun _ => rfl, fun _ => rfl,
      fun _ => ⟨1, rfl⟩⟩
  · exact fun name hname => (hrecorded name hname).1
  · exact fun _ _ _ _ _ => rfl
  · intro name hmissing
    rcases table_cases name with hname | rfl | rfl
    · have hsome := (hrecorded name hname).1
      exact absurd hmissing (Option.isSome_iff_ne_none.mp hsome)
    · exact absurd hmissing (Option.isSome_iff_ne_none.mp hsnapshots)
    · exact Option.isNone_iff_eq_none.mp hplaced
  · intro part hpart
    cases hnone.symm.trans hpart
  · exact fun part hpart name hname => (hrecorded name hname).2 part hpart

end RootLake.Iceberg

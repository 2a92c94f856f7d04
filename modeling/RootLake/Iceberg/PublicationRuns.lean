/-
  RootLake/Iceberg/PublicationRuns.lean
  =====================================
  **Every run of publications keeps the catalog consistent.**

  A run has done an initial part of its tasks.  What it has noted about the tables it has
  appended to covers its own generation and every committed one, so that the part it writes
  about the snapshots is true, and the commit record comes when everything else is listed.
-/
import RootLake.Iceberg.PublicationInvariant

namespace RootLake.Iceberg

open RootLake.AppendLog RootLake.ExceptRules RootLake.Iceberg.Lake

variable {Metadata Schema : Type} {root : String} {facts : PartFacts Metadata Schema}
variable {lake next : Lake Metadata Schema} {generation : String} {name : TableName}

/-! ### The progress of a run -/

/-- The tables that have been appended to. -/
def appended (done : List Task) : List TableName :=
  done.filterMap fun
    | .append name => some name
    | _ => none

theorem appended_snoc_append (done : List Task) (name : TableName) :
    appended (done ++ [.append name]) = appended done ++ [name] :=
  List.filterMap_append ..

theorem appended_snoc_of_ne {done : List Task} {task : Task}
    (h : ∀ name, task ≠ .append name) : appended (done ++ [task]) = appended done := by
  rw [appended, List.filterMap_append]
  cases task with
  | append name => exact absurd rfl (h name)
  | openCatalog => exact List.append_nil _
  | place _ => exact List.append_nil _
  | create _ => exact List.append_nil _
  | writeSnapshots => exact List.append_nil _
  | writeCommit => exact List.append_nil _

/-- A snapshot that a run of the generation has noted. -/
structure Covers (root : String) (lake : Lake Metadata Schema) (generation : String)
    (name : TableName) (commit : TableCommit) : Prop where
  table : commit.tableName = name.text
  positive : 0 < commit.icebergSnapshotId
  own : lake.ListsAt root name commit.icebergSnapshotId generation
  newest : (lake.tables name).versions.head?.map (·.id) = some commit.icebergSnapshotId
  committed : ∀ other, name ∈ baseTables → lake.Committed root other →
    lake.ListsAt root name commit.icebergSnapshotId other

theorem Covers.extends {commit : TableCommit} (h : Covers root lake generation name commit)
    (hext : Extends root lake next)
    (hversions : (next.tables name).versions = (lake.tables name).versions)
    (hcommitted : ∀ other, next.Committed root other →
      lake.Committed root other ∨ other = generation) :
    Covers root next generation name commit where
  table := h.table
  positive := h.positive
  own := hext.listsAt h.own
  newest := hversions ▸ h.newest
  committed other hbase hother := by
    rcases hcommitted other hother with hother | rfl
    · exact hext.listsAt (h.committed other hbase hother)
    · exact hext.listsAt h.own

structure Progress (root : String) (lake : Lake Metadata Schema) (generation : String)
    (done : List Task) (results : List TableCommit) : Prop where
  named : generation ≠ ""
  results : List.Forall₂ (Covers root lake generation) (appended done) results
  created : ∀ name, Task.create name ∈ done → (lake.tables name).schema.isSome

theorem Progress.extends {done : List Task} {results : List TableCommit}
    (h : Progress root lake generation done results) (hext : Extends root lake next)
    (hversions : ∀ name, (next.tables name).versions = (lake.tables name).versions)
    (hcreated : ∀ name, (lake.tables name).schema.isSome → (next.tables name).schema.isSome)
    (hcommitted : ∀ other, next.Committed root other →
      lake.Committed root other ∨ other = generation) :
    Progress root next generation done results where
  named := h.named
  results := h.results.imp fun name _ hcovers =>
    hcovers.extends hext (hversions name) hcommitted
  created name hname := hcreated name (h.created name hname)

/-- A task that appends to no table is done. -/
theorem Progress.snoc {done : List Task} {results : List TableCommit} {task : Task}
    (h : Progress root lake generation done results) (htask : ∀ name, task ≠ .append name)
    (hcreated : ∀ name, task = .create name → (lake.tables name).schema.isSome) :
    Progress root lake generation (done ++ [task]) results where
  named := h.named
  results := by
    rw [appended_snoc_of_ne htask]
    exact h.results
  created name hname := by
    rcases List.mem_append.mp hname with hname | hname
    · exact h.created name hname
    · exact hcreated name (List.mem_singleton.mp hname).symm

theorem Progress.covers {done : List Task} {results : List TableCommit}
    (h : Progress root lake generation done results) (hname : name ∈ appended done) :
    ∃ commit ∈ results, Covers root lake generation name commit :=
  exists_right_of_mem h.results name hname

structure Publishing (root : String) (lake : Lake Metadata Schema) (publisher : Publisher) :
    Prop where
  progress : ∃ done, done ++ publisher.todo = publication true ∧
    Progress root lake publisher.generation done publisher.results

/-- What lies ahead of a task in a publication. -/
theorem done_eq {done rest : List Task} {task : Task}
    (h : done ++ task :: rest = publication true) :
    done = (publication true).takeWhile (· ≠ task) := by
  have hnodup : (done ++ task :: rest).Nodup := h ▸ by decide
  have hnot : ∀ other ∈ done, decide (other ≠ task) = true := by
    intro other hother
    rw [decide_eq_true_eq]
    rintro rfl
    exact (List.nodup_append.mp hnodup).2.2 _ hother _ List.mem_cons_self rfl
  rw [← h, List.takeWhile_append_of_pos hnot, List.takeWhile_cons_of_neg (by simp),
    List.append_nil]

/-! ### Tasks -/

section Tasks

variable {publisher : Publisher} {done rest : List Task} {choice : Choice}
variable {results : List TableCommit}

/-- The catalog is consistent, and the run has made the progress. -/
structure Advanced (root : String) (lake : Lake Metadata Schema) (generation : String)
    (done : List Task) (results : List TableCommit) : Prop where
  consistent : Consistent root lake
  progress : Progress root lake generation done results

/-- A task that changes no table. -/
theorem Advanced.of_sameTables (h : Advanced root lake generation done results)
    (hsame : SameTables lake next)
    (hcreated : ∀ name, (lake.tables name).schema.isSome → (next.tables name).schema.isSome)
    (hstaged : ∀ other name part, next.staging other name = some part →
      lake.staging other name = some part ∨ Good root lake other name part) :
    Advanced root next generation done results where
  consistent := h.consistent.of_sameTables hsame hcreated hstaged
  progress := h.progress.extends hsame.extends (fun name => (hsame name).2) hcreated
    fun _ hother => .inl (hsame.listed.mp hother)

theorem Advanced.setPart (h : Advanced root lake generation done results) {part : Part Metadata}
    (hgood : Good root lake generation name part) :
    Advanced root (lake.setPart generation name (some part)) generation done results := by
  refine h.of_sameTables ?_ ?_ ?_
  · exact .of_tables_eq rfl
  · exact fun _ hschema => hschema
  · intro other table held hheld
    rcases setPart_staging hheld with hold | ⟨rfl, rfl, hnew⟩
    · exact .inl hold
    · exact .inr (Option.some.inj hnew ▸ hgood)

theorem Advanced.place (h : Advanced root lake generation done results)
    (hplace : lake.place root facts generation name = .ok next) :
    Advanced root next generation (done ++ [.place name]) results where
  consistent := h.consistent.place hplace
  progress := by
    apply Progress.snoc
    · apply h.progress.extends (place_extends hplace) (place_versions hplace)
      · intro table hschema
        rcases place_spec hplace with rfl | ⟨_, -, -, rfl⟩
        · exact hschema
        · by_cases htable : table = name
          · subst htable
            rw [setTable_self]
            exact hschema
          · rwa [setTable_of_ne htable]
      · intro other hother
        rw [Committed, Listed, place_versions hplace] at hother
        exact .inl hother
    · rintro _ ⟨⟩
    · rintro _ ⟨⟩

theorem getOrCreateTable_created
    (h : lake.getOrCreateTable facts generation name choice = .ok next) :
    (∀ table, (lake.tables table).schema.isSome → (next.tables table).schema.isSome) ∧
      (next.tables name).schema.isSome := by
  obtain ⟨part, -, h⟩ := bind_ok_iff.mp h
  obtain ⟨schema, -, h⟩ := bind_ok_iff.mp h
  split at h
  · rename_i current hcurrent
    split at h
    · cases h
      exact ⟨fun _ hschema => hschema, by rw [hcurrent]; rfl⟩
    · cases h
  · cases h
    refine ⟨fun table hschema => ?_, by rw [setTable_self]; rfl⟩
    by_cases htable : table = name
    · subst htable
      rw [setTable_self]
      rfl
    · rwa [setTable_of_ne htable]

theorem Advanced.create (h : Advanced root lake generation done results)
    (hcreate : lake.getOrCreateTable facts generation name choice = .ok next) :
    Advanced root next generation (done ++ [.create name]) results := by
  obtain ⟨hsame, hstaging⟩ := getOrCreateTable_spec hcreate
  obtain ⟨hcreated, hname⟩ := getOrCreateTable_created hcreate
  have hnext : Advanced root next generation done results := by
    apply h.of_sameTables hsame hcreated
    intro other table part hpart
    exact .inl (hstaging ▸ hpart)
  refine ⟨hnext.consistent, hnext.progress.snoc ?_ ?_⟩
  · rintro _ ⟨⟩
  · rintro _ ⟨⟩
    exact hname

theorem Advanced.append (h : Advanced root lake generation done results) {commit : TableCommit}
    (hdone : done ++ .append name :: rest = publication true)
    (hallows : lake.Allows choice (.append name))
    (happend : lake.appendFile root facts generation name choice = .ok (next, commit)) :
    Advanced root next generation (done ++ [.append name]) (results ++ [commit]) := by
  have hcreate : Task.create name ∈ done := by
    rw [done_eq hdone]
    cases name <;> decide
  have hcreated := h.progress.created name hcreate
  have hconsistent : Consistent root next := by
    apply h.consistent.append happend hallows hcreated h.progress.named
    rintro rfl table htable
    have hmem : table ∈ appended done := by
      rw [done_eq hdone]
      cases table <;> first | exact absurd rfl htable | decide
    obtain ⟨other, -, hcovers⟩ := h.progress.covers hmem
    exact h.consistent.listed hcovers.own
  have hlisted := appendFile_listed happend
  refine ⟨hconsistent, h.progress.named, ?_, ?_⟩
  · rw [appended_snoc_append]
    have hnew : ∀ table ∈ appended done, table ≠ name := by
      rw [done_eq hdone]
      cases name <;> decide
    refine List.rel_append ?_ (.cons ⟨(appendFile_spec happend).2.1, ?_, ?_, ?_, ?_⟩ .nil)
    · have hresults := (List.forall₂_and_left _ _).mpr ⟨hnew, h.progress.results⟩
      apply hresults.imp
      rintro table noted ⟨htable, hcovers⟩
      apply hcovers.extends (appendFile_extends happend) (appendFile_versions happend htable)
      intro other hother
      exact (listed_of_appendFile happend hother).imp_right And.right
    · obtain ⟨version, older, hversions, hid, -⟩ := appendFile_head happend
      rw [hid]
      exact hconsistent.positive name version (hversions ▸ List.mem_cons_self)
    · exact appendFile_listsAt happend hlisted
    · obtain ⟨version, older, hversions, hid, -⟩ := appendFile_head happend
      rw [hversions, hid]
      rfl
    · intro other _ hother
      exact appendFile_listsAt happend (hconsistent.complete other hother name)
  · intro table htable
    have hold : (lake.tables table).schema.isSome := by
      apply h.progress.created table
      rcases List.mem_append.mp htable with htable | htable
      · exact htable
      · cases List.mem_singleton.mp htable
    obtain ⟨-, -, ⟨rfl, -⟩ | ⟨-, -, _, -, new, -, hschema, -, rfl⟩⟩ := appendFile_spec happend
    · exact hold
    · by_cases hname : table = name
      · subst hname
        rw [setTable_self, hschema]
        exact hold
      · rwa [setTable_of_ne hname]

/-- The snapshots that a run notes are what its snapshots part says. -/
theorem Advanced.snapshotRecord (h : Advanced root lake generation done results)
    (hdone : appended done = recordedTables) :
    SnapshotRecord root lake generation (results.map (snapshotRow generation)) := by
  have hresults := h.progress.results
  rw [hdone] at hresults
  have hrow : ∀ row ∈ results.map (snapshotRow generation), ∃ name ∈ recordedTables,
      ∃ commit, Covers root lake generation name commit ∧
        row = snapshotRow generation commit := by
    intro row hrow
    obtain ⟨commit, hcommit, rfl⟩ := List.mem_map.mp hrow
    obtain ⟨name, hname, hcovers⟩ := exists_left_of_mem hresults commit hcommit
    exact ⟨name, hname, commit, hcovers, rfl⟩
  have hcovers : ∀ name, ∀ row ∈ results.map (snapshotRow generation),
      row.tableName = name.text → ∃ commit, Covers root lake generation name commit ∧
        row.icebergSnapshotId = commit.icebergSnapshotId := by
    intro name row hmem hname
    obtain ⟨other, -, commit, hcovers, rfl⟩ := hrow row hmem
    obtain rfl := TableName.text_injective (hname.symm.trans hcovers.table)
    exact ⟨commit, hcovers, rfl⟩
  have hpaths : lake.Listed root .pathSources generation := by
    have hmem : TableName.pathSources ∈ appended done := by
      rw [hdone]
      decide
    obtain ⟨commit, -, hcommit⟩ := h.progress.covers hmem
    exact h.consistent.listed hcommit.own
  obtain ⟨part, hpart⟩ := h.consistent.placed hpaths
  have hlineage : Lineage root lake generation part.pathRows :=
    h.consistent.parts generation .pathSources part (.inr hpart)
  refine ⟨?_, ?_, ?_, ?_, part, hpart, ?_⟩
  · intro row hmem
    obtain ⟨-, -, commit, -, rfl⟩ := hrow row hmem
    rfl
  · rw [List.map_map, ← List.forall₂_eq_eq_eq, List.forall₂_map_left_iff,
      List.forall₂_map_right_iff]
    exact hresults.flip.imp fun _ _ hcommit => hcommit.table
  · intro row hmem
    obtain ⟨_, -, commit, hcommit, rfl⟩ := hrow row hmem
    exact hcommit.positive
  · intro name _ row hmem hname
    obtain ⟨commit, hcommit, hid⟩ := hcovers name row hmem hname
    rw [hid]
    exact hcommit.own
  · intro name hbase row hmem hname source hsource
    obtain ⟨commit, hcommit, hid⟩ := hcovers name row hmem hname
    rw [hid]
    rcases hlineage.origins source hsource with horigin | horigin
    · rw [horigin]
      exact hcommit.own
    · exact hcommit.committed _ hbase horigin.1

theorem Advanced.writeSnapshots (h : Advanced root lake generation done results)
    (hdone : done ++ .writeSnapshots :: rest = publication true)
    (hwrite : lake.writeSnapshots generation results = .ok next) :
    Advanced root next generation (done ++ [.writeSnapshots]) results := by
  have hnext : Advanced root next generation done results := by
    rcases writeSnapshots_spec hwrite with rfl | rfl
    · exact h
    · apply h.setPart
      apply h.snapshotRecord
      rw [done_eq hdone]
      decide
  refine ⟨hnext.consistent, hnext.progress.snoc ?_ ?_⟩
  · rintro _ ⟨⟩
  · rintro _ ⟨⟩

theorem Advanced.writeCommit {manifest dictionary : String} {now : Int}
    (h : Advanced root lake generation done results)
    (hwrite : lake.writeCommit generation manifest dictionary now = .ok next) :
    Advanced root next generation (done ++ [.writeCommit]) results := by
  have hnext : Advanced root next generation done results := by
    rcases writeCommit_spec hwrite with rfl | rfl
    · exact h
    · apply h.setPart
      exact ⟨manifest, dictionary, now, rfl⟩
  refine ⟨hnext.consistent, hnext.progress.snoc ?_ ?_⟩
  · rintro _ ⟨⟩
  · rintro _ ⟨⟩

/-- **One task of a run.** -/
theorem Advanced.perform (h : Advanced root lake publisher.generation done publisher.results)
    {task : Task} (hdone : done ++ task :: rest = publication true)
    (hallows : lake.Allows choice task)
    (hperform : lake.perform root facts publisher choice task = .ok (next, results)) :
    Advanced root next publisher.generation (done ++ [task]) results := by
  cases task with
  | openCatalog =>
    obtain ⟨rfl, rfl⟩ := Prod.mk.inj (Except.ok.inj hperform)
    have hnext : Advanced root { lake with opened := true } publisher.generation done
        publisher.results := by
      refine h.of_sameTables ?_ ?_ ?_
      · exact .of_tables_eq rfl
      · exact fun _ hschema => hschema
      · exact fun _ _ _ hpart => .inl hpart
    refine ⟨hnext.consistent, hnext.progress.snoc ?_ ?_⟩
    · rintro _ ⟨⟩
    · rintro _ ⟨⟩
  | place name =>
    obtain ⟨after, hplace, hrest⟩ := bind_ok_iff.mp hperform
    obtain ⟨rfl, rfl⟩ := Prod.mk.inj (Except.ok.inj hrest)
    exact h.place hplace
  | create name =>
    obtain ⟨after, hcreate, hrest⟩ := bind_ok_iff.mp hperform
    obtain ⟨rfl, rfl⟩ := Prod.mk.inj (Except.ok.inj hrest)
    exact h.create hcreate
  | append name =>
    obtain ⟨⟨after, commit⟩, happend, hrest⟩ := bind_ok_iff.mp hperform
    obtain ⟨rfl, rfl⟩ := Prod.mk.inj (Except.ok.inj hrest)
    exact h.append hdone hallows happend
  | writeSnapshots =>
    obtain ⟨after, hwrite, hrest⟩ := bind_ok_iff.mp hperform
    obtain ⟨rfl, rfl⟩ := Prod.mk.inj (Except.ok.inj hrest)
    exact h.writeSnapshots hdone hwrite
  | writeCommit =>
    obtain ⟨after, hwrite, hrest⟩ := bind_ok_iff.mp hperform
    obtain ⟨rfl, rfl⟩ := Prod.mk.inj (Except.ok.inj hrest)
    exact h.writeCommit hwrite

end Tasks

/-! ### The beginning of a run -/

/-- The rows that the path sources have for a committed generation are those of its part. -/
theorem Consistent.mem_generationPaths (h : Consistent root lake) {part : Part Metadata}
    (hpart : lake.placed root .pathSources generation = some part)
    (hlisted : lake.Listed root .pathSources generation) {parts : List (Part Metadata)}
    (hrelation : lake.relation root .pathSources = .ok parts) (path origin : String) :
    (path, origin) ∈ generationPaths (parts.flatMap Part.pathRows) generation ↔
      ∃ row ∈ part.pathRows, row.logicalPath = path ∧ row.physicalSnapshotId = origin := by
  rw [generationPaths, List.mem_dedup, List.mem_map]
  constructor
  · rintro ⟨row, hrow, heq⟩
    obtain ⟨hmem, hown⟩ := List.mem_filter.mp hrow
    obtain ⟨held, hheld, hin⟩ := List.mem_flatMap.mp hmem
    rw [relation_ok hrelation] at hheld
    obtain ⟨file, hfile, hdata⟩ := List.mem_filterMap.mp hheld
    obtain ⟨other, placed, huri, hplaced⟩ := h.files .pathSources file hfile
    rw [huri, ← Lake.placed, hplaced] at hdata
    obtain rfl := Option.some.inj hdata
    have hlineage : Lineage root lake other placed.pathRows :=
      h.parts other .pathSources placed (.inr hplaced)
    obtain rfl := (hlineage.own row hin).symm.trans (of_decide_eq_true hown)
    obtain rfl := Option.some.inj (hplaced.symm.trans hpart)
    exact ⟨row, hin, (Prod.mk.inj heq).1, (Prod.mk.inj heq).2⟩
  · rintro ⟨row, hrow, rfl, rfl⟩
    have hlineage : Lineage root lake generation part.pathRows :=
      h.parts generation .pathSources part (.inr hpart)
    refine ⟨row, List.mem_filter.mpr ⟨?_, decide_eq_true (hlineage.own row hrow)⟩, rfl⟩
    refine List.mem_flatMap.mpr ⟨part, ?_, hrow⟩
    obtain ⟨file, hfile, huri⟩ := List.mem_map.mp hlisted
    rw [relation_ok hrelation]
    refine List.mem_filterMap.mpr ⟨file, hfile, ?_⟩
    rw [huri]
    exact hpart

/-- **The paths of a committed generation are read back from the path sources.** -/
theorem Consistent.recordedPaths (h : Consistent root lake)
    (hcommitted : lake.Committed root generation) {paths : List (String × String)}
    (hpaths : lake.recordedPaths root generation = .ok paths) :
    ∃ part, lake.placed root .pathSources generation = some part ∧ paths ≠ [] ∧
      (paths.map Prod.fst).Nodup ∧
        ∀ path origin, (path, origin) ∈ paths ↔
          ∃ row ∈ part.pathRows, row.logicalPath = path ∧ row.physicalSnapshotId = origin := by
  have hlisted := h.complete generation hcommitted .pathSources
  obtain ⟨part, hpart⟩ := h.placed hlisted
  have hne : (lake.tables .pathSources).versions ≠ [] := by
    intro hnil
    rw [Listed, hnil] at hlisted
    exact List.not_mem_nil hlisted
  have hschema := h.created .pathSources hne
  rw [Lake.recordedPaths, if_neg (by simpa [Option.isSome_iff_ne_none] using hschema)] at hpaths
  obtain ⟨parts, hrelation, hpaths⟩ := bind_ok_iff.mp hpaths
  obtain ⟨rfl, hnodup⟩ := emplaceAll_ok hpaths List.nodup_nil
  rw [List.nil_append] at hnodup ⊢
  have hmem := h.mem_generationPaths hpart hlisted hrelation
  refine ⟨part, hpart, ?_, hnodup, hmem⟩
  obtain ⟨row, hrow⟩ := List.exists_mem_of_ne_nil _
    (h.parts generation .pathSources part (.inr hpart) : Lineage _ _ _ _).nonempty
  exact List.ne_nil_of_mem ((hmem _ _).mpr ⟨row, hrow, rfl, rfl⟩)

/-- The paths of a committed generation are recorded: those that it has indexed itself are not
    asked for. -/
theorem Consistent.previousPaths (h : Consistent root lake)
    (hcommitted : lake.Committed root generation) {dataset : String}
    {paths : List (String × String)}
    (hpaths : lake.previousPaths root facts generation dataset = .ok paths) :
    lake.recordedPaths root generation = .ok paths := by
  obtain ⟨recorded, hrecorded, hpaths⟩ := bind_ok_iff.mp hpaths
  obtain ⟨-, -, hne, -, -⟩ := h.recordedPaths hcommitted hrecorded
  rw [if_pos hne] at hpaths
  rwa [← Except.ok.inj hpaths]

theorem extendedPaths_spec {request : IndexRequest} {row : CommitRow}
    {paths : List (String × String)}
    (h : lake.extendedPaths root facts request row = .ok paths) :
    lake.previousPaths root facts row.rootSnapshotId request.datasetId = .ok paths := by
  unfold Lake.extendedPaths at h
  split at h
  · cases h
  · obtain ⟨previous, hprevious, h⟩ := bind_ok_iff.mp h
    obtain ⟨files, -, h⟩ := bind_ok_iff.mp h
    obtain ⟨-, -, h⟩ := bind_ok_iff.mp h
    split at h
    · cases h
    · rwa [← Except.ok.inj h]

/-- A commit that the catalog shows is one of a committed generation. -/
theorem Consistent.committed_of_mem (h : Consistent root lake) {row : CommitRow}
    (hrow : row ∈ lake.latestCommits root) : lake.Committed root row.rootSnapshotId := by
  rw [latestCommits] at hrow
  split at hrow
  · rename_i parts hrelation
    obtain ⟨part, hpart, hrow⟩ := List.mem_flatMap.mp (List.mem_filter.mp hrow).1
    rw [relation_ok hrelation] at hpart
    obtain ⟨file, hfile, hdata⟩ := List.mem_filterMap.mp hpart
    obtain ⟨generation, placed, huri, hplaced⟩ := h.files .commits file hfile
    rw [huri, ← Lake.placed, hplaced] at hdata
    obtain rfl := Option.some.inj hdata
    obtain ⟨manifest, dictionary, now, hrows⟩ :=
      (h.parts generation .commits placed (.inr hplaced) : Receipt generation _)
    rw [hrows, List.mem_singleton] at hrow
    rw [hrow]
    exact List.mem_map.mpr ⟨file, hfile, huri⟩
  · exact absurd hrow List.not_mem_nil

def lineageRows (generation parent : String) (paths : List (String × String)) : List PathRow :=
  paths.map fun path => ⟨generation, path.1, path.2, parent⟩

/-- The path sources of a generation that extends nothing. -/
theorem lineage_first {paths : List String}
    (hpaths : ((paths.map fun path => (path, generation)).map Prod.fst).Nodup)
    (hne : paths.map (fun path => (path, generation)) ≠ []) :
    Lineage root lake generation
      (lineageRows generation "" (paths.map fun path => (path, generation))) := by
  have horigin : ∀ row ∈ lineageRows generation "" (paths.map fun path => (path, generation)),
      row.physicalSnapshotId = generation := by
    intro row hrow
    obtain ⟨pair, hpair, rfl⟩ := List.mem_map.mp hrow
    obtain ⟨path, -, rfl⟩ := List.mem_map.mp hpair
    rfl
  refine ⟨?_, ?_, ?_, fun row hrow => .inl (horigin row hrow), "", ?_, .inl ⟨rfl, horigin⟩⟩
  · simpa [lineageRows] using hne
  · intro row hrow
    obtain ⟨pair, -, rfl⟩ := List.mem_map.mp hrow
    rfl
  · rw [lineageRows, List.map_map]
    exact hpaths
  · intro row hrow
    obtain ⟨pair, -, rfl⟩ := List.mem_map.mp hrow
    rfl

/-- The path sources of a generation that extends a committed one. -/
theorem Consistent.lineage_extension (h : Consistent root lake) {parent : String}
    (hcommitted : lake.Committed root parent) (hother : parent ≠ generation)
    {previous : List (String × String)} (hprevious : lake.recordedPaths root parent = .ok previous)
    {paths : List String}
    (hpaths : ((previous ++ paths.map fun path => (path, generation)).map Prod.fst).Nodup) :
    Lineage root lake generation
      (lineageRows generation parent (previous ++ paths.map fun path => (path, generation))) := by
  obtain ⟨part, hpart, hne, -, hmem⟩ := h.recordedPaths hcommitted hprevious
  have hparent : Lineage root lake parent part.pathRows :=
    h.parts parent .pathSources part (.inr hpart)
  have hrow : ∀ row ∈ lineageRows generation parent
      (previous ++ paths.map fun path => (path, generation)),
      row.physicalSnapshotId = generation ∨ ∃ source ∈ part.pathRows,
        source.logicalPath = row.logicalPath ∧
          source.physicalSnapshotId = row.physicalSnapshotId := by
    intro row hrow
    obtain ⟨⟨path, origin⟩, hpair, rfl⟩ := List.mem_map.mp hrow
    rcases List.mem_append.mp hpair with hpair | hpair
    · exact .inr ((hmem path origin).mp hpair)
    · obtain ⟨path, -, heq⟩ := List.mem_map.mp hpair
      exact .inl (Prod.mk.inj heq).2.symm
  refine ⟨?_, ?_, ?_, ?_, parent, ?_, .inr ⟨hcommitted, hother, part, hpart, ?_, hrow⟩⟩
  · simp [lineageRows, hne]
  · intro row hrow
    obtain ⟨pair, -, rfl⟩ := List.mem_map.mp hrow
    rfl
  · rw [lineageRows, List.map_map]
    exact hpaths
  · intro row hmem
    refine (hrow row hmem).imp_right fun ⟨source, hsource, hpath, horigin⟩ => ?_
    rcases hparent.origins source hsource with hown | hindexed
    · rw [← horigin, hown]
      exact ⟨hcommitted, part, hpart, source, hsource, hpath, hown⟩
    · rwa [← hpath, ← horigin]
  · intro row hrow
    obtain ⟨pair, -, rfl⟩ := List.mem_map.mp hrow
    rfl
  · intro source hsource
    have hpair := (hmem source.logicalPath source.physicalSnapshotId).mpr
      ⟨source, hsource, rfl, rfl⟩
    exact ⟨_, List.mem_map_of_mem (List.mem_append_left _ hpair), rfl, rfl⟩

/-- What a preparation that succeeds leaves in the staging directory. -/
theorem Consistent.preparePathSources (h : Consistent root lake) {request : IndexRequest}
    {latest : Option CommitRow} (hlatest : IsLatest (lake.latestCommits root) latest)
    (hprepare : lake.preparePathSources root facts request latest = .ok next) :
    (next = lake ∧ (lake.staging request.generation .pathSources).isSome) ∨
      ∃ rows, Lineage root lake request.generation rows ∧
        next = lake.setPart request.generation .pathSources (some (.pathSources rows)) := by
  unfold Lake.preparePathSources at hprepare
  split at hprepare
  · split at hprepare
    · cases hprepare
    · obtain ⟨-, -, hprepare⟩ := bind_ok_iff.mp hprepare
      split at hprepare
      · cases hprepare
      · rename_i row
        split at hprepare
        · split at hprepare
          · cases hprepare
          · rename_i hstaged
            exact .inl ⟨(Except.ok.inj hprepare).symm, by
              simpa [Option.isSome_iff_ne_none] using hstaged⟩
        · rename_i hother
          obtain ⟨previous, hextended, hprepare⟩ := bind_ok_iff.mp hprepare
          obtain ⟨paths, hpaths, hwrite⟩ := bind_ok_iff.mp hprepare
          rcases writePaths_spec hwrite with hsame | ⟨-, rfl⟩
          · exact .inl hsame
          · right
            have hcommitted := h.committed_of_mem hlatest.1
            have hprevious := h.previousPaths hcommitted (extendedPaths_spec hextended)
            obtain ⟨-, -, -, hkeys, -⟩ := h.recordedPaths hcommitted hprevious
            obtain ⟨rfl, hnodup⟩ := emplaceAll_ok hpaths hkeys
            exact ⟨_, h.lineage_extension hcommitted hother hprevious hnodup, rfl⟩
  · obtain ⟨paths, hpaths, hwrite⟩ := bind_ok_iff.mp hprepare
    rcases writePaths_spec hwrite with hsame | ⟨hne, rfl⟩
    · exact .inl hsame
    · right
      obtain ⟨rfl, hnodup⟩ := emplaceAll_ok hpaths List.nodup_nil
      exact ⟨_, lineage_first hnodup hne, rfl⟩

/-! ### Runs -/

/-- The invariant of the publications. -/
structure Invariant (root : String) (lake : Lake Metadata Schema) : Prop where
  consistent : Consistent root lake
  publishing : ∀ publisher, lake.publisher = some publisher → Publishing root lake publisher

theorem Invariant.idle (h : Consistent root lake) (hidle : lake.publisher = none) :
    Invariant root lake where
  consistent := h
  publishing publisher hpublisher := by
    rw [hidle] at hpublisher
    cases hpublisher

/-- Steps that touch staging directories only, and those that end a run. -/
theorem Consistent.of_staging (h : Consistent root lake) (htables : next.tables = lake.tables)
    (hstaged : ∀ generation name part, next.staging generation name = some part →
      lake.staging generation name = some part ∨ Good root lake generation name part) :
    Consistent root next :=
  h.of_sameTables (.of_tables_eq htables) (fun _ hschema => htables ▸ hschema) hstaged

theorem Consistent.build (h : Consistent root lake) (generation : String)
    (content : TableName → Option Metadata) :
    Consistent root (lake.build generation content) := by
  refine h.of_staging ?_ ?_
  · rfl
  · intro other name part hpart
    by_cases hother : other = generation
    · subst hother
      by_cases hbase : name ∈ baseTables
      · right
        simp only [baseTables, List.mem_cons, List.not_mem_nil, or_false] at hbase
        rcases hbase with rfl | rfl | rfl | rfl <;> trivial
      · simp only [Lake.build, Function.update_self, if_neg hbase] at hpart
        exact .inl hpart
    · simp only [Lake.build, Function.update_of_ne hother] at hpart
      exact .inl hpart

theorem Invariant.begin (h : Invariant root lake) {request : IndexRequest}
    {latest : Option CommitRow} (hnamed : request.generation ≠ "")
    (hlatest : IsLatest (lake.latestCommits root) latest) :
    Invariant root (lake.begin root facts request latest) := by
  unfold Lake.begin
  split
  · exact h
  · rename_i prepared hprepared
    have hstaged : Consistent root prepared ∧
        (prepared.staging request.generation .pathSources).isSome := by
      rcases h.consistent.preparePathSources hlatest hprepared with
        ⟨rfl, hsome⟩ | ⟨rows, hrows, rfl⟩
      · exact ⟨h.consistent, hsome⟩
      · constructor
        · refine h.consistent.of_staging ?_ ?_
          · rfl
          · intro other name part hpart
            rcases setPart_staging hpart with hold | ⟨rfl, rfl, hnew⟩
            · exact .inl hold
            · exact .inr (Option.some.inj hnew ▸ hrows)
        · simp [setPart]
    constructor
    · exact hstaged.1.of_staging rfl fun _ _ _ hpart => .inl hpart
    · intro publisher hpublisher
      obtain rfl := Option.some.inj hpublisher
      refine ⟨[], ?_, hnamed, .nil, fun _ hname => absurd hname List.not_mem_nil⟩
      rw [hstaged.2]
      rfl

theorem Invariant.performNext (h : Invariant root lake) {publisher : Publisher}
    (hpublisher : lake.publisher = some publisher) {choice : Choice}
    (hallows : ∀ task ∈ publisher.todo.head?, lake.Allows choice task) :
    Invariant root (lake.performNext root facts publisher choice) := by
  have hended : Invariant root { lake with publisher := none } :=
    .idle (h.consistent.of_staging rfl fun _ _ _ hpart => .inl hpart) rfl
  unfold Lake.performNext
  split
  · exact hended
  · rename_i task rest htodo
    split
    · exact hended
    · rename_i after results hperform
      obtain ⟨done, hdone, hprogress⟩ := (h.publishing publisher hpublisher).progress
      rw [htodo] at hdone
      have hnext := Advanced.perform ⟨h.consistent, hprogress⟩ hdone
        (hallows task (by rw [htodo]; rfl)) hperform
      constructor
      · exact hnext.consistent.of_staging rfl fun _ _ _ hpart => .inl hpart
      · intro next hnew
        obtain rfl := Option.some.inj hnew
        refine ⟨done ++ [task], ?_, ?_⟩
        · rw [List.append_assoc]
          exact hdone
        · have hsame : SameTables after { after with
              publisher := some { publisher with results, todo := rest } } :=
            .of_tables_eq rfl
          exact hnext.progress.extends hsame.extends (fun _ => rfl) (fun _ hschema => hschema)
            fun _ hother => .inl (hsame.listed.mp hother)

/-- **Every step keeps the invariant.** -/
theorem Invariant.step (h : Invariant root lake) {action : Action Metadata}
    (hstep : lake.step root facts action = some next) : Invariant root next := by
  cases action with
  | build generation content =>
    obtain ⟨hidle, hnext⟩ := Option.ite_none_right_eq_some.mp hstep
    obtain rfl := Option.some.inj hnext
    exact .idle (h.consistent.build generation content) (Option.isNone_iff_eq_none.mp hidle)
  | discard generation name =>
    obtain ⟨hidle, hnext⟩ := Option.ite_none_right_eq_some.mp hstep
    obtain rfl := Option.some.inj hnext
    refine .idle (h.consistent.of_staging rfl ?_) (Option.isNone_iff_eq_none.mp hidle)
    intro other table part hpart
    rcases setPart_staging hpart with hold | ⟨-, -, hnone⟩
    · exact .inl hold
    · cases hnone
  | begin request latest =>
    obtain ⟨⟨-, hnamed, hlatest⟩, hnext⟩ := Option.ite_none_right_eq_some.mp hstep
    obtain rfl := Option.some.inj hnext
    exact h.begin hnamed hlatest
  | task choice =>
    simp only [Lake.step] at hstep
    split at hstep
    · cases hstep
    · rename_i publisher hpublisher
      obtain ⟨hallows, hnext⟩ := Option.ite_none_right_eq_some.mp hstep
      obtain rfl := Option.some.inj hnext
      exact h.performNext hpublisher hallows
  | interrupt =>
    obtain rfl := Option.some.inj hstep
    exact .idle (h.consistent.of_staging rfl fun _ _ _ hpart => .inl hpart) rfl

theorem invariant_of_reachable (h : (publications root facts).Reachable lake) :
    Invariant root lake := by
  apply Runs.System.Reachable.invariant h
  · rintro _ rfl
    exact .idle consistent_empty rfl
  · intro _ _ _ hinvariant hstep
    exact hinvariant.step hstep

end RootLake.Iceberg

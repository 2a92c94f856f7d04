/-
  RootLake/Iceberg/PublicationInvariant.lean
  ==========================================
  **What holds of a catalog whatever has been published, resumed or cut off.**

  A generation that the commit table lists is listed by every other table, and what its parts
  say about snapshots and origins is true of the catalog.  The work is in the order of the tasks:
  a run keeps, for every table it has appended to, that the snapshot it noted lists the file of
  its own generation and those of all generations committed before.
-/
import RootLake.Iceberg.PublicationSteps
import Mathlib.Data.List.TakeWhile

namespace RootLake.Iceberg

open RootLake.AppendLog RootLake.ExceptRules RootLake.Iceberg.Lake

variable {Metadata Schema : Type} {root : String} {facts : PartFacts Metadata Schema}
variable {lake next : Lake Metadata Schema} {generation : String} {name : TableName}

/-! ### The parts of a generation -/

/-- The generation has been committed and has itself indexed the path. -/
def IndexedBy (root : String) (lake : Lake Metadata Schema) (path origin : String) : Prop :=
  lake.Committed root origin ∧ ∃ part, lake.placed root .pathSources origin = some part ∧
    ∃ row ∈ part.pathRows, row.logicalPath = path ∧ row.physicalSnapshotId = origin

/-- Path sources that extend the ones of a committed parent. -/
structure Extension (root : String) (lake : Lake Metadata Schema) (generation parent : String)
    (rows : List PathRow) : Prop where
  committed : lake.Committed root parent
  other : parent ≠ generation
  keeps : ∃ part, lake.placed root .pathSources parent = some part ∧
    (∀ source ∈ part.pathRows, ∃ row ∈ rows, row.logicalPath = source.logicalPath ∧
      row.physicalSnapshotId = source.physicalSnapshotId) ∧
    ∀ row ∈ rows, row.physicalSnapshotId = generation ∨ ∃ source ∈ part.pathRows,
      source.logicalPath = row.logicalPath ∧
        source.physicalSnapshotId = row.physicalSnapshotId

structure Lineage (root : String) (lake : Lake Metadata Schema) (generation : String)
    (rows : List PathRow) : Prop where
  nonempty : rows ≠ []
  own : ∀ row ∈ rows, row.rootSnapshotId = generation
  paths : (rows.map (·.logicalPath)).Nodup
  origins : ∀ row ∈ rows, row.physicalSnapshotId = generation ∨
    IndexedBy root lake row.logicalPath row.physicalSnapshotId
  parent : ∃ parent, (∀ row ∈ rows, row.parentRootSnapshotId = parent) ∧
    ((parent = "" ∧ ∀ row ∈ rows, row.physicalSnapshotId = generation) ∨
      Extension root lake generation parent rows)

/-- The tables whose snapshots are written down. -/
def recordedTables : List TableName := baseTables ++ [.pathSources]

/-- The snapshots that a generation writes down: in each table, its own file is listed and so are
    those of the origins of its paths. -/
structure SnapshotRecord (root : String) (lake : Lake Metadata Schema) (generation : String)
    (rows : List SnapshotRow) : Prop where
  own : ∀ row ∈ rows, row.rootSnapshotId = generation
  tables : rows.map (·.tableName) = recordedTables.map TableName.text
  positive : ∀ row ∈ rows, 0 < row.icebergSnapshotId
  listsAt : ∀ name ∈ recordedTables, ∀ row ∈ rows, row.tableName = name.text →
    lake.ListsAt root name row.icebergSnapshotId generation
  origins : ∃ part, lake.placed root .pathSources generation = some part ∧
    ∀ name ∈ baseTables, ∀ row ∈ rows, row.tableName = name.text →
      ∀ source ∈ part.pathRows,
        lake.ListsAt root name row.icebergSnapshotId source.physicalSnapshotId

def Receipt (generation : String) (rows : List CommitRow) : Prop :=
  ∃ manifest dictionary now, rows = [⟨generation, "COMMITTED", manifest, dictionary, now⟩]

/-- What the part of a table says is true. -/
def Good (root : String) (lake : Lake Metadata Schema) (generation : String) (name : TableName)
    (part : Part Metadata) : Prop :=
  match name with
  | .pathSources => Lineage root lake generation part.pathRows
  | .snapshots => SnapshotRecord root lake generation part.snapshotRows
  | .commits => Receipt generation part.commitRows
  | .files | .schemas | .access | .baskets => True

theorem IndexedBy.extends {path origin : String} (h : IndexedBy root lake path origin)
    (hext : Extends root lake next) : IndexedBy root next path origin := by
  obtain ⟨hcommitted, part, hpart, hrow⟩ := h
  exact ⟨hext.committed hcommitted, part, hext.placed hpart, hrow⟩

theorem Extension.extends {parent : String} {rows : List PathRow}
    (h : Extension root lake generation parent rows) (hext : Extends root lake next) :
    Extension root next generation parent rows where
  committed := hext.committed h.committed
  other := h.other
  keeps := by
    obtain ⟨part, hpart, hkeeps⟩ := h.keeps
    exact ⟨part, hext.placed hpart, hkeeps⟩

theorem Lineage.extends {rows : List PathRow} (h : Lineage root lake generation rows)
    (hext : Extends root lake next) : Lineage root next generation rows where
  nonempty := h.nonempty
  own := h.own
  paths := h.paths
  origins row hrow := (h.origins row hrow).imp_right (·.extends hext)
  parent := by
    obtain ⟨parent, hparent, hrows⟩ := h.parent
    exact ⟨parent, hparent, hrows.imp_right (·.extends hext)⟩

theorem SnapshotRecord.extends {rows : List SnapshotRow}
    (h : SnapshotRecord root lake generation rows) (hext : Extends root lake next) :
    SnapshotRecord root next generation rows where
  own := h.own
  tables := h.tables
  positive := h.positive
  listsAt name hname row hrow heq := hext.listsAt (h.listsAt name hname row hrow heq)
  origins := by
    obtain ⟨part, hpart, horigins⟩ := h.origins
    refine ⟨part, hext.placed hpart, fun name hname row hrow heq source hsource => ?_⟩
    exact hext.listsAt (horigins name hname row hrow heq source hsource)

theorem Good.extends {part : Part Metadata} (h : Good root lake generation name part)
    (hext : Extends root lake next) : Good root next generation name part := by
  cases name with
  | pathSources => exact Lineage.extends h hext
  | snapshots => exact SnapshotRecord.extends h hext
  | commits => exact h
  | files => exact h
  | schemas => exact h
  | access => exact h
  | baskets => exact h

/-! ### The catalog -/

/-- The part is in the staging directory of the generation or in the data directory. -/
def Held (root : String) (lake : Lake Metadata Schema) (generation : String) (name : TableName)
    (part : Part Metadata) : Prop :=
  lake.staging generation name = some part ∨ lake.placed root name generation = some part

structure Consistent (root : String) (lake : Lake Metadata Schema) : Prop where
  sound : ∀ name, Sound DataFile.filePath (lake.tables name).versions
  files : ∀ name, ∀ file ∈ current (lake.tables name).versions, ∃ generation part,
    file.filePath = fileUri root name generation ∧
      lake.placed root name generation = some part
  positive : ∀ name, ∀ version ∈ (lake.tables name).versions, 0 < version.id
  created : ∀ name, (lake.tables name).versions ≠ [] → (lake.tables name).schema.isSome
  named : ∀ name generation, lake.Listed root name generation → generation ≠ ""
  complete : ∀ generation, lake.Committed root generation →
    ∀ name, lake.Listed root name generation
  parts : ∀ generation name part, Held root lake generation name part →
    Good root lake generation name part

/-- A file that is listed is there. -/
theorem Consistent.placed (h : Consistent root lake) (hlisted : lake.Listed root name generation) :
    ∃ part, lake.placed root name generation = some part := by
  obtain ⟨file, hfile, huri⟩ := List.mem_map.mp hlisted
  obtain ⟨other, part, hother, hpart⟩ := h.files name file hfile
  obtain rfl := fileUri_injective root name (huri.symm.trans hother)
  exact ⟨part, hpart⟩

theorem Consistent.listed (h : Consistent root lake) {id : Int}
    (hlists : lake.ListsAt root name id generation) : lake.Listed root name generation :=
  Lists.mem_current (h.sound name) hlists

theorem consistent_empty : Consistent root (emptyLake : Lake Metadata Schema) where
  sound _ := sound_nil
  files _ _ hfile := absurd hfile List.not_mem_nil
  positive _ _ hversion := absurd hversion List.not_mem_nil
  created _ hne := absurd rfl hne
  named _ _ hlisted := absurd hlisted List.not_mem_nil
  complete _ hcommitted := absurd hcommitted List.not_mem_nil
  parts _ _ _ hheld := by
    rcases hheld with h | h
    · cases h
    · cases h

/-- A step that changes no table but may change staging directories. -/
theorem Consistent.of_sameTables (h : Consistent root lake) (hsame : SameTables lake next)
    (hcreated : ∀ name, (lake.tables name).schema.isSome → (next.tables name).schema.isSome)
    (hstaged : ∀ generation name part, next.staging generation name = some part →
      lake.staging generation name = some part ∨ Good root lake generation name part) :
    Consistent root next where
  sound name := (hsame name).2 ▸ h.sound name
  files name file hfile := by
    rw [(hsame name).2] at hfile
    obtain ⟨generation, part, huri, hpart⟩ := h.files name file hfile
    exact ⟨generation, part, huri, (hsame.placed _ _).trans hpart⟩
  positive name version hversion := h.positive name version ((hsame name).2 ▸ hversion)
  created name hne := hcreated name (h.created name ((hsame name).2 ▸ hne))
  named name generation hlisted := h.named name generation (hsame.listed.mp hlisted)
  complete generation hcommitted name :=
    hsame.listed.mpr (h.complete generation (hsame.listed.mp hcommitted) name)
  parts generation name part hheld := by
    apply Good.extends ?_ hsame.extends
    rcases hheld with hheld | hheld
    · rcases hstaged _ _ _ hheld with hold | hgood
      · exact h.parts generation name part (.inl hold)
      · exact hgood
    · exact h.parts generation name part (.inr ((hsame.placed _ _).symm.trans hheld))

/-- Copying a staged part into the data directory. -/
theorem Consistent.place (h : Consistent root lake)
    (hplace : lake.place root facts generation name = .ok next) : Consistent root next where
  sound table := place_versions hplace table ▸ h.sound table
  files table file hfile := by
    rw [place_versions hplace] at hfile
    obtain ⟨other, part, huri, hpart⟩ := h.files table file hfile
    exact ⟨other, part, huri, (place_extends hplace).placed hpart⟩
  positive table version hversion :=
    h.positive table version (place_versions hplace table ▸ hversion)
  created table hne := by
    have hcreated := h.created table (place_versions hplace table ▸ hne)
    rcases place_spec hplace with rfl | ⟨_, -, -, rfl⟩
    · exact hcreated
    · by_cases htable : table = name
      · subst htable
        rw [setTable_self]
        exact hcreated
      · rw [setTable_of_ne htable]
        exact hcreated
  named table other hlisted := by
    rw [Listed, place_versions hplace] at hlisted
    exact h.named table other hlisted
  complete other hcommitted table := by
    rw [Committed, Listed, place_versions hplace] at hcommitted
    exact (place_extends hplace).listed (h.complete other hcommitted table)
  parts other table part hheld := by
    apply Good.extends ?_ (place_extends hplace)
    rcases hheld with hheld | hheld
    · rw [place_staging hplace] at hheld
      exact h.parts other table part (.inl hheld)
    · rcases place_placed hplace hheld with hold | ⟨rfl, rfl, hstaged⟩
      · exact h.parts other table part (.inr hold)
      · exact h.parts other table part (.inl hstaged)

/-! ### Appending -/

section Append

variable {choice : Choice} {commit : TableCommit}

theorem appendFile_extends
    (h : lake.appendFile root facts generation name choice = .ok (next, commit)) :
    Extends root lake next := by
  obtain ⟨-, -, ⟨rfl, -⟩ | ⟨-, -, file, -, table, hdata, -, hversions, rfl⟩⟩ := appendFile_spec h
  · exact (SameTables.of_tables_eq rfl).extends
  · refine ⟨fun {other uri} hlisted => ?_, fun {other id uri} hlists => ?_,
      fun {other uri part} hplaced => ?_⟩
    all_goals by_cases hother : other = name
    · subst hother
      rw [Listed, setTable_self, hversions, current_append, List.map_append]
      exact List.mem_append_left _ hlisted
    · rwa [Listed, setTable_of_ne hother]
    · subst hother
      rw [ListsAt, setTable_self, hversions]
      exact hlists.append _ _
    · rwa [ListsAt, setTable_of_ne hother]
    · subst hother
      rwa [Lake.placed, setTable_self, hdata]
    · rwa [Lake.placed, setTable_of_ne hother]

/-- The newest snapshot afterwards is the one that was noted, and it lists the file. -/
theorem appendFile_head
    (h : lake.appendFile root facts generation name choice = .ok (next, commit)) :
    ∃ version rest, (next.tables name).versions = version :: rest ∧
      commit.icebergSnapshotId = version.id ∧
        fileUri root name generation ∈ version.files.map (·.filePath) := by
  obtain ⟨-, -, ⟨rfl, hhead⟩ | ⟨-, hid, file, hfile, table, -, -, hversions, rfl⟩⟩ :=
    appendFile_spec h
  · exact hhead
  · refine ⟨_, _, (congrArg MetadataTable.versions (setTable_self table)).trans hversions,
      hid, ?_⟩
    rw [List.map_append, List.map_singleton, hfile]
    exact List.mem_append_right _ (List.mem_singleton_self _)

/-- What the newest snapshot lists, the noted one lists. -/
theorem appendFile_listsAt
    (h : lake.appendFile root facts generation name choice = .ok (next, commit))
    {other : String} (hlisted : next.Listed root name other) :
    next.ListsAt root name commit.icebergSnapshotId other := by
  obtain ⟨version, rest, hversions, hid, -⟩ := appendFile_head h
  rw [Listed, hversions] at hlisted
  rw [ListsAt, hversions]
  exact ⟨version, List.mem_cons_self, hid.symm, hlisted⟩

theorem appendFile_listed
    (h : lake.appendFile root facts generation name choice = .ok (next, commit)) :
    next.Listed root name generation := by
  obtain ⟨version, rest, hversions, -, huri⟩ := appendFile_head h
  rw [Listed, hversions]
  exact huri

/-- The file of the generation is the only one that may be listed anew. -/
theorem listed_of_appendFile
    (h : lake.appendFile root facts generation name choice = .ok (next, commit))
    {table : TableName} {other : String} (hlisted : next.Listed root table other) :
    lake.Listed root table other ∨ (table = name ∧ other = generation) := by
  obtain ⟨-, -, ⟨rfl, -⟩ | ⟨-, -, file, hfile, new, -, -, hversions, rfl⟩⟩ := appendFile_spec h
  · exact .inl hlisted
  · by_cases htable : table = name
    · subst htable
      rw [Listed, setTable_self, hversions, current_append, List.map_append, List.map_singleton,
        hfile] at hlisted
      rcases List.mem_append.mp hlisted with hlisted | hlisted
      · exact .inl hlisted
      · exact .inr ⟨rfl, fileUri_injective root table (List.mem_singleton.mp hlisted)⟩
    · rw [Listed, setTable_of_ne htable] at hlisted
      exact .inl hlisted

theorem appendFile_staging
    (h : lake.appendFile root facts generation name choice = .ok (next, commit)) :
    next.staging = lake.staging := by
  obtain ⟨-, -, ⟨rfl, -⟩ | ⟨-, -, _, -, _, -, -, -, rfl⟩⟩ := appendFile_spec h <;> rfl

theorem appendFile_versions
    (h : lake.appendFile root facts generation name choice = .ok (next, commit))
    {table : TableName} (htable : table ≠ name) :
    (next.tables table).versions = (lake.tables table).versions := by
  obtain ⟨-, -, ⟨rfl, -⟩ | ⟨-, -, _, -, _, -, -, -, rfl⟩⟩ := appendFile_spec h
  · rfl
  · rw [setTable_of_ne htable]

theorem appendFile_placed
    (h : lake.appendFile root facts generation name choice = .ok (next, commit))
    (table : TableName) (other : String) :
    next.placed root table other = lake.placed root table other := by
  obtain ⟨-, -, ⟨rfl, -⟩ | ⟨-, -, _, -, new, hdata, -, -, rfl⟩⟩ := appendFile_spec h
  · rfl
  · by_cases htable : table = name
    · subst htable
      rw [Lake.placed, setTable_self, hdata, Lake.placed]
    · rw [Lake.placed, setTable_of_ne htable, Lake.placed]

/-- **Appending keeps a catalog consistent** if the commit record comes when everything else
    is listed. -/
theorem Consistent.append (h : Consistent root lake)
    (happend : lake.appendFile root facts generation name choice = .ok (next, commit))
    (hfresh : lake.Allows choice (.append name)) (hcreated : (lake.tables name).schema.isSome)
    (hnamed : generation ≠ "")
    (hlast : name = .commits → ∀ table, table ≠ .commits → lake.Listed root table generation) :
    Consistent root next where
  sound table := by
    obtain ⟨-, -, ⟨rfl, -⟩ | ⟨hnew, -, file, hfile, new, -, -, hversions, rfl⟩⟩ :=
      appendFile_spec happend
    · exact h.sound table
    · by_cases htable : table = name
      · subst htable
        rw [setTable_self, hversions]
        exact (h.sound table).append hfresh.2 (hfile ▸ hnew)
      · rw [setTable_of_ne htable]
        exact h.sound table
  files table file hfile := by
    have hold : ∀ file ∈ current (lake.tables table).versions, ∃ other part,
        file.filePath = fileUri root table other ∧
          next.placed root table other = some part := by
      intro file hfile
      obtain ⟨other, part, huri, hpart⟩ := h.files table file hfile
      exact ⟨other, part, huri, (appendFile_placed happend _ _).trans hpart⟩
    obtain ⟨⟨part, hpart⟩, -, ⟨rfl, -⟩ | ⟨-, -, added, hadded, new, -, -, hversions, rfl⟩⟩ :=
      appendFile_spec happend
    · exact hold file hfile
    · by_cases htable : table = name
      · subst htable
        rw [setTable_self, hversions, current_append] at hfile
        rcases List.mem_append.mp hfile with hfile | hfile
        · exact hold file hfile
        · obtain rfl := List.mem_singleton.mp hfile
          exact ⟨generation, part, hadded, (appendFile_placed happend _ _).trans hpart⟩
      · rw [setTable_of_ne htable] at hfile
        exact hold file hfile
  positive table version hversion := by
    obtain ⟨-, -, ⟨rfl, -⟩ | ⟨-, -, file, -, new, -, -, hversions, rfl⟩⟩ := appendFile_spec happend
    · exact h.positive table version hversion
    · by_cases htable : table = name
      · subst htable
        rw [setTable_self, hversions] at hversion
        rcases List.mem_cons.mp hversion with rfl | hversion
        · exact hfresh.1
        · exact h.positive table version hversion
      · rw [setTable_of_ne htable] at hversion
        exact h.positive table version hversion
  created table hne := by
    obtain ⟨-, -, ⟨rfl, -⟩ | ⟨-, -, _, -, new, -, hschema, -, rfl⟩⟩ := appendFile_spec happend
    · exact h.created table hne
    · by_cases htable : table = name
      · subst htable
        rw [setTable_self, hschema]
        exact hcreated
      · rw [setTable_of_ne htable] at hne ⊢
        exact h.created table hne
  named table other hlisted := by
    rcases listed_of_appendFile happend hlisted with hold | ⟨rfl, rfl⟩
    · exact h.named table other hold
    · exact hnamed
  complete other hcommitted table := by
    rcases listed_of_appendFile happend hcommitted with hold | ⟨rfl, rfl⟩
    · exact (appendFile_extends happend).listed (h.complete other hold table)
    · by_cases htable : table = .commits
      · subst htable
        exact hcommitted
      · exact (appendFile_extends happend).listed (hlast rfl table htable)
  parts other table part hheld := by
    apply Good.extends (h.parts other table part ?_) (appendFile_extends happend)
    rwa [Held, appendFile_staging happend, appendFile_placed happend] at hheld

end Append

end RootLake.Iceberg

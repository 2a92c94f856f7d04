/-
  RootLake/Iceberg/PublicationSteps.lean
  ======================================
  **What one step of a publication does to a catalog.**

  Data files are never replaced, tables only get new snapshots that list what the old ones
  list, and a step changes one table or one part of a staging directory.
-/
import RootLake.Iceberg.Publication
import RootLake.Lib.ExceptRules
import Mathlib.Data.List.Dedup

namespace RootLake.Iceberg

open RootLake.AppendLog RootLake.ExceptRules

variable {Metadata Schema : Type} {root : String} {facts : PartFacts Metadata Schema}
variable {lake next : Lake Metadata Schema} {generation : String} {name : TableName}

/-! ### Names -/

theorem TableName.text_injective : Function.Injective TableName.text := by
  intro left right h
  cases left <;> cases right <;> first | rfl | exact absurd h (by decide)

/-- The data files of a table belong to different generations. -/
theorem fileUri_injective (root : String) (name : TableName) :
    Function.Injective (fileUri root name) := by
  intro left right h
  simp only [fileUri, destination] at h
  have h' := congrArg String.toList h
  simp only [String.toList_append, List.append_assoc, List.append_cancel_left_eq,
    List.append_cancel_right_eq] at h'
  exact String.toList_inj.mp h'

/-! ### Lakes -/

section Files

variable (table : MetadataTable Metadata Schema) (uri : String) (part : Part Metadata)

@[simp] theorem putFile_data :
    (table.putFile uri part).data = Function.update table.data uri (some part) := rfl

@[simp] theorem putFile_versions : (table.putFile uri part).versions = table.versions := rfl

end Files

namespace Lake

/-- The current snapshot of the table lists the file of the generation. -/
def Listed (root : String) (lake : Lake Metadata Schema) (name : TableName)
    (generation : String) : Prop :=
  fileUri root name generation ∈ (current (lake.tables name).versions).map (·.filePath)

def Committed (root : String) (lake : Lake Metadata Schema) (generation : String) : Prop :=
  lake.Listed root .commits generation

/-- The snapshot `id` of the table lists the file of the generation. -/
def ListsAt (root : String) (lake : Lake Metadata Schema) (name : TableName) (id : Int)
    (generation : String) : Prop :=
  Lists DataFile.filePath (lake.tables name).versions id (fileUri root name generation)

/-- Nothing that one can read in `lake` is lost in `next`. -/
structure Extends (root : String) (lake next : Lake Metadata Schema) : Prop where
  listed : ∀ {name generation}, lake.Listed root name generation →
    next.Listed root name generation
  listsAt : ∀ {name id generation}, lake.ListsAt root name id generation →
    next.ListsAt root name id generation
  placed : ∀ {name generation part}, lake.placed root name generation = some part →
    next.placed root name generation = some part

theorem Extends.committed (h : Extends root lake next)
    (hcommitted : lake.Committed root generation) :
    next.Committed root generation :=
  h.listed hcommitted

/-- The tables have the same files and the same snapshots. -/
def SameTables (lake next : Lake Metadata Schema) : Prop :=
  ∀ name, (next.tables name).data = (lake.tables name).data ∧
    (next.tables name).versions = (lake.tables name).versions

theorem SameTables.of_tables_eq (h : next.tables = lake.tables) : SameTables lake next :=
  fun name => ⟨by rw [h], by rw [h]⟩

theorem SameTables.symm (h : SameTables lake next) : SameTables next lake :=
  fun name => ⟨(h name).1.symm, (h name).2.symm⟩

theorem SameTables.placed (h : SameTables lake next) (name : TableName) (generation : String) :
    next.placed root name generation = lake.placed root name generation := by
  rw [Lake.placed, Lake.placed, (h name).1]

theorem SameTables.listed (h : SameTables lake next) :
    next.Listed root name generation ↔ lake.Listed root name generation := by
  rw [Listed, Listed, (h name).2]

theorem SameTables.listsAt (h : SameTables lake next) {id : Int} :
    next.ListsAt root name id generation ↔ lake.ListsAt root name id generation := by
  rw [ListsAt, ListsAt, (h name).2]

theorem SameTables.extends (h : SameTables lake next) : Extends root lake next where
  listed := h.listed.mpr
  listsAt := h.listsAt.mpr
  placed hplaced := (h.placed _ _).trans hplaced

@[simp] theorem setTable_self (table : MetadataTable Metadata Schema) :
    (lake.setTable name table).tables name = table :=
  Function.update_self ..

@[simp] theorem setTable_of_ne {other : TableName} (h : other ≠ name)
    (table : MetadataTable Metadata Schema) :
    (lake.setTable name table).tables other = lake.tables other :=
  Function.update_of_ne h ..

@[simp] theorem setPart_tables (part : Option (Part Metadata)) :
    (lake.setPart generation name part).tables = lake.tables := rfl

/-- A part of a staging directory after another one, or the same, was set. -/
theorem setPart_staging {part : Option (Part Metadata)} {other : String} {table : TableName}
    {held : Part Metadata}
    (h : (lake.setPart generation name part).staging other table = some held) :
    lake.staging other table = some held ∨
      (other = generation ∧ table = name ∧ part = some held) := by
  by_cases hother : other = generation
  · subst hother
    by_cases htable : table = name
    · subst htable
      simp only [setPart, Function.update_self] at h
      exact .inr ⟨rfl, rfl, h⟩
    · simp only [setPart, Function.update_self, Function.update_of_ne htable] at h
      exact .inl h
  · simp only [setPart, Function.update_of_ne hother] at h
    exact .inl h

/-! ### Tasks -/

theorem stagedPart_ok {part : Part Metadata} :
    lake.stagedPart generation name = .ok part ↔ lake.staging generation name = some part := by
  rw [stagedPart]
  cases lake.staging generation name with
  | none => exact ⟨fun h => (nomatch h), fun h => (nomatch h)⟩
  | some staged =>
    constructor
    · intro h
      rw [Except.ok.inj h]
    · intro h
      rw [Option.some.inj h]

/-- Placing leaves a file that exists alone, and copies the staged part else. -/
theorem place_spec (h : lake.place root facts generation name = .ok next) :
    next = lake ∨ ∃ part, lake.staging generation name = some part ∧
      lake.placed root name generation = none ∧
      next = lake.setTable name
        ((lake.tables name).putFile (fileUri root name generation) part) := by
  obtain ⟨part, hpart, h⟩ := bind_ok_iff.mp h
  obtain ⟨-, -, h⟩ := bind_ok_iff.mp h
  split at h
  · split at h
    · exact .inl (Except.ok.inj h).symm
    · cases h
  · rename_i hnone
    exact .inr ⟨part, stagedPart_ok.mp hpart, hnone, (Except.ok.inj h).symm⟩

theorem place_extends (h : lake.place root facts generation name = .ok next) :
    Extends root lake next := by
  rcases place_spec h with rfl | ⟨part, -, hnone, rfl⟩
  · exact (SameTables.of_tables_eq rfl).extends
  · have hversions : ∀ table, ((lake.setTable name ((lake.tables name).putFile
        (fileUri root name generation) part)).tables table).versions =
          (lake.tables table).versions := by
      intro table
      by_cases htable : table = name
      · subst htable
        rw [setTable_self, putFile_versions]
      · rw [setTable_of_ne htable]
    refine ⟨fun hlisted => ?_, fun hlists => ?_, fun {table other held} hplaced => ?_⟩
    · rwa [Listed, hversions]
    · rwa [ListsAt, hversions]
    · by_cases htable : table = name
      · subst htable
        rw [Lake.placed, setTable_self, putFile_data, Function.update_of_ne]
        · exact hplaced
        · intro huri
          rw [Lake.placed, huri, ← Lake.placed, hnone] at hplaced
          cases hplaced
      · rwa [Lake.placed, setTable_of_ne htable]

/-- What is placed afterwards was there, or is the staged part of the generation. -/
theorem place_placed (h : lake.place root facts generation name = .ok next) {table : TableName}
    {other : String} {part : Part Metadata} (hpart : next.placed root table other = some part) :
    lake.placed root table other = some part ∨
      (other = generation ∧ table = name ∧ lake.staging generation name = some part) := by
  rcases place_spec h with rfl | ⟨staged, hstaged, -, rfl⟩
  · exact .inl hpart
  · by_cases htable : table = name
    · subst htable
      by_cases hother : other = generation
      · subst hother
        rw [Lake.placed, setTable_self, putFile_data, Function.update_self] at hpart
        exact .inr ⟨rfl, rfl, hstaged.trans hpart⟩
      · rw [Lake.placed, setTable_self, putFile_data,
          Function.update_of_ne fun huri => hother (fileUri_injective root _ huri)] at hpart
        exact .inl hpart
    · rw [Lake.placed, setTable_of_ne htable] at hpart
      exact .inl hpart

theorem place_versions (h : lake.place root facts generation name = .ok next) (table : TableName) :
    (next.tables table).versions = (lake.tables table).versions := by
  rcases place_spec h with rfl | ⟨_, -, -, rfl⟩
  · rfl
  · by_cases htable : table = name
    · subst htable
      rw [setTable_self, putFile_versions]
    · rw [setTable_of_ne htable]

theorem place_staging (h : lake.place root facts generation name = .ok next) :
    next.staging = lake.staging := by
  rcases place_spec h with rfl | ⟨_, -, -, rfl⟩ <;> rfl

theorem getOrCreateTable_spec {choice : Choice}
    (h : lake.getOrCreateTable facts generation name choice = .ok next) :
    SameTables lake next ∧ next.staging = lake.staging := by
  obtain ⟨part, -, h⟩ := bind_ok_iff.mp h
  obtain ⟨schema, -, h⟩ := bind_ok_iff.mp h
  split at h
  · split at h
    · cases h
      exact ⟨.of_tables_eq rfl, rfl⟩
    · cases h
  · cases h
    refine ⟨fun table => ?_, rfl⟩
    by_cases htable : table = name
    · subst htable
      rw [setTable_self]
      exact ⟨rfl, rfl⟩
    · rw [setTable_of_ne htable]
      exact ⟨rfl, rfl⟩

theorem fastAppend_spec {part : Part Metadata} {choice : Choice} {commit : TableCommit}
    (h : lake.fastAppend root facts generation name part choice = .ok (next, commit)) :
    commit.tableName = name.text ∧ commit.icebergSnapshotId = choice.snapshotId ∧
      ∃ file : DataFile, file.filePath = fileUri root name generation ∧
        ∃ table : MetadataTable Metadata Schema, table.data = (lake.tables name).data ∧
          table.schema = (lake.tables name).schema ∧
          table.versions = append (lake.tables name).versions choice.snapshotId file ∧
          next = lake.setTable name table := by
  obtain ⟨rows, -, h⟩ := bind_ok_iff.mp h
  obtain ⟨rfl, rfl⟩ := Prod.mk.inj (Except.ok.inj h)
  refine ⟨rfl, rfl, ⟨_, rows, facts.fileSize part⟩, rfl, _, ?_, ?_, ?_, rfl⟩ <;> rfl

/-- **An append finds the file in the current snapshot, or makes a snapshot with it.** -/
theorem appendFile_spec {choice : Choice} {commit : TableCommit}
    (h : lake.appendFile root facts generation name choice = .ok (next, commit)) :
    (∃ part, lake.placed root name generation = some part) ∧ commit.tableName = name.text ∧
      ((next = lake ∧ ∃ version rest, (lake.tables name).versions = version :: rest ∧
          commit.icebergSnapshotId = version.id ∧
          fileUri root name generation ∈ version.files.map (·.filePath)) ∨
        (¬lake.Listed root name generation ∧ commit.icebergSnapshotId = choice.snapshotId ∧
          ∃ file : DataFile, file.filePath = fileUri root name generation ∧
            ∃ table : MetadataTable Metadata Schema, table.data = (lake.tables name).data ∧
              table.schema = (lake.tables name).schema ∧
              table.versions = append (lake.tables name).versions choice.snapshotId file ∧
              next = lake.setTable name table)) := by
  rw [appendFile] at h
  split at h
  · cases h
  · rename_i part hplaced
    refine ⟨⟨part, hplaced⟩, ?_⟩
    split at h
    · rename_i hversions
      obtain ⟨hname, hid, hfile⟩ := fastAppend_spec h
      refine ⟨hname, .inr ⟨?_, hid, hfile⟩⟩
      rw [Listed, hversions]
      exact List.not_mem_nil
    · rename_i version rest hversions
      split at h
      · rename_i hnone
        obtain ⟨hname, hid, hfile⟩ := fastAppend_spec h
        refine ⟨hname, .inr ⟨?_, hid, hfile⟩⟩
        rw [Listed, hversions]
        intro hmem
        obtain ⟨file, hfile, huri⟩ := List.mem_map.mp hmem
        have := List.find?_eq_none.mp hnone file hfile
        exact this (decide_eq_true huri)
      · rename_i existing hfound
        split at h
        · obtain ⟨rfl, rfl⟩ := Prod.mk.inj (Except.ok.inj h)
          refine ⟨rfl, .inl ⟨rfl, version, rest, hversions, rfl, ?_⟩⟩
          have huri : existing.filePath = fileUri root name generation := by
            simpa using List.find?_some hfound
          exact List.mem_map.mpr ⟨existing, List.mem_of_find?_eq_some hfound, huri⟩
        · cases h

theorem writeSnapshots_spec {tables : List TableCommit}
    (h : lake.writeSnapshots generation tables = .ok next) :
    next = lake ∨ next = lake.setPart generation .snapshots
      (some (.snapshots (tables.map (snapshotRow generation)))) := by
  rw [writeSnapshots] at h
  split at h
  · exact .inr (Except.ok.inj h).symm
  · split at h
    · cases h
    · split at h
      · exact .inl (Except.ok.inj h).symm
      · cases h

theorem writeCommit_spec {manifest dictionary : String} {now : Int}
    (h : lake.writeCommit generation manifest dictionary now = .ok next) :
    next = lake ∨ next = lake.setPart generation .commits
      (some (.commits [⟨generation, "COMMITTED", manifest, dictionary, now⟩])) := by
  rw [writeCommit] at h
  split at h
  · exact .inr (Except.ok.inj h).symm
  · split at h
    · split at h
      · exact .inl (Except.ok.inj h).symm
      · cases h
    · cases h

theorem writePaths_spec {parent : String} {paths : List (String × String)}
    (h : lake.writePaths generation parent paths = .ok next) :
    (next = lake ∧ (lake.staging generation .pathSources).isSome) ∨
      (paths ≠ [] ∧ next = lake.setPart generation .pathSources (some (.pathSources (paths.map
        fun path => ⟨generation, path.1, path.2, parent⟩)))) := by
  rw [writePaths] at h
  split at h
  · rename_i part hpart
    split at h
    · exact .inl ⟨(Except.ok.inj h).symm, by rw [hpart]; rfl⟩
    · cases h
  · split at h
    · cases h
    · rename_i hne
      exact .inr ⟨hne, (Except.ok.inj h).symm⟩

/-! ### Reading -/

theorem relation_ok {parts : List (Part Metadata)} (h : lake.relation root name = .ok parts) :
    parts = (current (lake.tables name).versions).filterMap fun file =>
      (lake.tables name).data file.filePath := by
  rw [relation] at h
  split at h
  · cases h
  · split at h
    · cases h
    · exact (Except.ok.inj h).symm

end Lake

/-! ### Maps of paths -/

/-- Entering pairs that succeeds appends them, under paths that are all different. -/
theorem emplaceAll_ok {duplicate : String} {paths more result : List (String × String)}
    (h : Lake.emplaceAll duplicate paths more = .ok result) (hpaths : (paths.map Prod.fst).Nodup) :
    result = paths ++ more ∧ (result.map Prod.fst).Nodup := by
  induction more generalizing paths with
  | nil =>
    obtain rfl := Except.ok.inj h
    exact ⟨(List.append_nil _).symm, hpaths⟩
  | cons pair more ih =>
    obtain ⟨path, source⟩ := pair
    rw [Lake.emplaceAll] at h
    split at h
    · cases h
    · rename_i hnew
      have hfresh : path ∉ paths.map Prod.fst := by
        rw [Bool.not_eq_true, Option.isSome_eq_false_iff, Option.isNone_iff_eq_none,
          List.lookup_eq_none_iff] at hnew
        intro hmem
        obtain ⟨pair, hpair, rfl⟩ := List.mem_map.mp hmem
        have := hnew pair hpair
        simp at this
      have hnodup : ((paths ++ [(path, source)]).map Prod.fst).Nodup := by
        rw [List.map_append, List.map_singleton, ← List.concat_eq_append]
        exact hpaths.concat hfresh
      obtain ⟨rfl, hresult⟩ := ih h hnodup
      exact ⟨by rw [List.append_assoc, List.singleton_append], hresult⟩

end RootLake.Iceberg

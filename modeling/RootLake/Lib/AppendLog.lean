import Mathlib.Data.List.Nodup
import Mathlib.Data.List.Count

/-!
# Versioned tables that only grow

A log is the list of the versions of a table, the newest first. Every version is named by an
identifier and lists the files of the table; an append makes a version with one file more. In
a sound log no two versions share an identifier, no version lists a file twice, and a version
lists the files of the older ones.
-/

namespace RootLake.AppendLog

universe u v w

variable {Id : Type u} {File : Type v} {Key : Type w}

structure Version (Id : Type u) (File : Type v) where
  id : Id
  files : List File
  deriving DecidableEq, Repr

/-- The files of the newest version. -/
def current : List (Version Id File) → List File
  | [] => []
  | version :: _ => version.files

def append (log : List (Version Id File)) (id : Id) (file : File) : List (Version Id File) :=
  ⟨id, current log ++ [file]⟩ :: log

/-- `key` tells files apart. -/
structure Sound (key : File → Key) (log : List (Version Id File)) : Prop where
  ids : (log.map (·.id)).Nodup
  files : ((current log).map key).Nodup
  grows : ∀ version ∈ log, version.files.Sublist (current log)

/-- The version `id` lists a file with the key. -/
def Lists (key : File → Key) (log : List (Version Id File)) (id : Id) (k : Key) : Prop :=
  ∃ version ∈ log, version.id = id ∧ k ∈ version.files.map key

variable {key : File → Key} {log : List (Version Id File)}

theorem sound_nil : Sound key ([] : List (Version Id File)) where
  ids := List.nodup_nil
  files := List.nodup_nil
  grows _ h := absurd h List.not_mem_nil

theorem current_append (log : List (Version Id File)) (id : Id) (file : File) :
    current (append log id file) = current log ++ [file] := rfl

/-- **An append of a new file under a new identifier keeps a log sound.** -/
theorem Sound.append (h : Sound key log) {id : Id} (hid : id ∉ log.map (·.id)) {file : File}
    (hfile : key file ∉ (current log).map key) : Sound key (append log id file) where
  ids := List.nodup_cons.mpr ⟨hid, h.ids⟩
  files := by
    rw [current_append, List.map_append, List.map_singleton, ← List.concat_eq_append]
    exact h.files.concat hfile
  grows version hversion := by
    rw [current_append]
    rcases List.mem_cons.mp hversion with rfl | hversion
    · exact List.Sublist.refl _
    · exact (h.grows version hversion).trans (List.sublist_append_left _ _)

/-- What a version lists it goes on listing. -/
theorem Lists.append {id : Id} {k : Key} (h : Lists key log id k) (newId : Id) (file : File) :
    Lists key (append log newId file) id k := by
  obtain ⟨version, hversion, hlists⟩ := h
  exact ⟨version, List.mem_cons_of_mem _ hversion, hlists⟩

theorem Lists.mem_current (h : Sound key log) {id : Id} {k : Key} (hlists : Lists key log id k) :
    k ∈ (current log).map key := by
  obtain ⟨version, hversion, -, hk⟩ := hlists
  exact ((h.grows version hversion).map key).subset hk

/-- An identifier names one version. -/
theorem Sound.version_unique (h : Sound key log) {version other : Version Id File}
    (hversion : version ∈ log) (hother : other ∈ log) (hid : version.id = other.id) :
    version = other :=
  List.inj_on_of_nodup_map h.ids hversion hother hid

/-- **A version lists a file at most once**, the newest one too. -/
theorem Sound.count_eq_one [DecidableEq Key] (h : Sound key log) {version : Version Id File}
    (hversion : version ∈ log) {k : Key} (hk : k ∈ version.files.map key) :
    (version.files.map key).count k = 1 :=
  List.count_eq_one_of_mem (h.files.sublist ((h.grows version hversion).map key)) hk

/-! ### Versions by their identifiers -/

def filesAt [DecidableEq Id] (log : List (Version Id File)) (id : Id) : Option (List File) :=
  (log.find? (·.id = id)).map (·.files)

section FilesAt

variable [DecidableEq Id]

theorem filesAt_mem {id : Id} {files : List File} (h : filesAt log id = some files) :
    ⟨id, files⟩ ∈ log := by
  obtain ⟨version, hfound, rfl⟩ := Option.map_eq_some_iff.mp h
  have hid : version.id = id := by simpa using List.find?_some hfound
  rw [← hid]
  exact List.mem_of_find?_eq_some hfound

/-- An append does not change a version. -/
theorem filesAt_append {id newId : Id} (h : newId ∉ log.map (·.id)) (file : File)
    {files : List File} (hfiles : filesAt log id = some files) :
    filesAt (append log newId file) id = some files := by
  have hne : newId ≠ id := by
    rintro rfl
    exact h (List.mem_map_of_mem (filesAt_mem hfiles))
  rw [filesAt, append, List.find?_cons_of_neg (by simpa using hne)]
  exact hfiles

theorem Lists.filesAt [DecidableEq Key] (h : Sound key log) {id : Id} {k : Key}
    (hlists : Lists key log id k) :
    ∃ files, filesAt log id = some files ∧ (files.map key).count k = 1 := by
  obtain ⟨version, hversion, hid, hk⟩ := hlists
  cases hfound : log.find? (·.id = id) with
  | none => exact absurd hid (by simpa using List.find?_eq_none.mp hfound version hversion)
  | some found =>
    have hsame : found = version := by
      apply h.version_unique (List.mem_of_find?_eq_some hfound) hversion
      rw [hid]
      simpa using List.find?_some hfound
    rw [AppendLog.filesAt, hfound, hsame]
    exact ⟨version.files, rfl, h.count_eq_one hversion hk⟩

end FilesAt

/-! ### The rows of files -/

/-- When every row belongs to the file it is in, the rows that belong to a file are its own. -/
theorem filter_flatMap [DecidableEq Key] {Row : Type u} {files : List File}
    (hnodup : (files.map key).Nodup) {rows : File → List Row} {owner : Row → Key}
    (howner : ∀ file ∈ files, ∀ row ∈ rows file, owner row = key file) {file : File}
    (hfile : file ∈ files) :
    (files.flatMap rows).filter (fun row => owner row = key file) = rows file := by
  induction files with
  | nil => exact absurd hfile List.not_mem_nil
  | cons head tail ih =>
    rw [List.map_cons, List.nodup_cons] at hnodup
    rw [List.flatMap_cons, List.filter_append]
    have htail : ∀ other ∈ tail, ∀ row ∈ rows other, owner row = key other :=
      fun other hother => howner other (List.mem_cons_of_mem _ hother)
    rcases List.mem_cons.mp hfile with rfl | hmem
    · have hself : (rows file).filter (fun row => owner row = key file) = rows file := by
        rw [List.filter_eq_self]
        exact fun row hrow => decide_eq_true (howner file List.mem_cons_self row hrow)
      have hrest : (tail.flatMap rows).filter (fun row => owner row = key file) = [] := by
        rw [List.filter_eq_nil_iff]
        intro row hrow
        obtain ⟨other, hother, hrow⟩ := List.mem_flatMap.mp hrow
        rw [htail other hother row hrow, decide_eq_true_eq]
        exact fun heq => hnodup.1 (heq ▸ List.mem_map_of_mem hother)
      rw [hself, hrest, List.append_nil]
    · have hhead : (rows head).filter (fun row => owner row = key file) = [] := by
        rw [List.filter_eq_nil_iff]
        intro row hrow
        rw [howner head List.mem_cons_self row hrow, decide_eq_true_eq]
        exact fun heq => hnodup.1 (heq ▸ List.mem_map_of_mem hmem)
      rw [hhead, List.nil_append, ih hnodup.2 htail hmem]

/-- Files with different keys: the key finds one. -/
theorem filter_key_eq [DecidableEq Key] {files : List File} (hnodup : (files.map key).Nodup)
    {file : File} (hfile : file ∈ files) :
    files.filter (fun other => key other = key file) = [file] := by
  have h := @filter_flatMap _ _ key _ _ files hnodup (fun other => [other]) key
    (fun other _ row hrow => congrArg key (List.mem_singleton.mp hrow)) file hfile
  rwa [List.flatMap_singleton'] at h

end RootLake.AppendLog

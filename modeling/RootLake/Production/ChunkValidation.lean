import Mathlib.Data.List.Nodup
import Mathlib.Data.List.Pairwise
import RootLake.Lib.ExceptRules
import RootLake.Production.PythonValue

/-!
# Validation of the chunks

`validate_chunks.py` reads what the workers left for each chunk of a plan, a success record
and a `current.json`, and reports whether a commit may use all of it.
-/

namespace RootLake.Production

open ExceptRules

structure PlanChunk where
  chunkId : String
  sourceIds : List String

/-- The plan, as `plan_chunks.py` writes it. -/
structure ChunkedPlan where
  fingerprint : String
  manifestFingerprint : String
  dictionaryFingerprint : String
  chunks : List PlanChunk

/-- What stands in the directory of a chunk: the parsed files, or why they do not parse, and
    the digest of each regular file. -/
structure ChunkDirectory where
  path : PurePath
  success : Option (Except String Value)
  current : Except String Value
  file : PurePath → Option String

/-! ### The script -/

/-- `{row["chunk_id"]: row for row in plan["chunks"]}`. -/
def insertRow (rows : List PlanChunk) (row : PlanChunk) : List PlanChunk :=
  if rows.any (·.chunkId = row.chunkId) then
    rows.map fun other => if other.chunkId = row.chunkId then row else other
  else rows ++ [row]

def ChunkedPlan.expected (plan : ChunkedPlan) : List PlanChunk := plan.chunks.foldl insertRow []

/-- The path of a table and its name in the checksums. -/
def tablePath (directory : ChunkDirectory) (value : Value) : Except String (PurePath × String) :=
  match value with
  | .string text =>
      let path := PurePath.parse text
      let path := if path.isAbsolute then path else directory.path.join path
      match path.relativeTo directory.path with
      | .error e => .error e
      | .ok rel => .ok (path, rel)
  | _ => .error "TypeError"

/-- `path.is_file() and checksums.get(rel) == sha256_file(path)`. -/
def tableChecked (directory : ChunkDirectory) (checksums value : Value) : Except String Bool := do
  let (path, rel) ← tablePath directory value
  match directory.file path with
  | none => .ok false
  | some digest => do
      let recorded ← checksums.asRecord
      .ok ((Record.get recorded rel).equal (.string digest))

/-- The loop over the tables that are listed. -/
def tablesChecked (directory : ChunkDirectory) (checksums : Value) : Record → Except String Bool
  | [] => .ok true
  | (_, value) :: rest => do
      let checked ← tableChecked directory checksums value
      let others ← tablesChecked directory checksums rest
      .ok (checked && others)

def sameSources (actual : List Value) (expected : List String) : Bool :=
  actual.all (fun value => expected.any fun source => value.equal (.string source)) &&
    expected.all fun source => actual.any fun value => value.equal (.string source)

def seenSource (seen : List String) (actual : List Value) : Bool :=
  actual.any fun value => seen.any fun source => value.equal (.string source)

/-- The long conjunction over a chunk. -/
def recordsAgree (plan : ChunkedPlan) (chunkId : String) (success current : Record) : Bool :=
  (success.get "format").equal (.string "root4duckdb-chunk-success-v2") &&
  (success.get "state").equal (.string "succeeded") &&
  (success.get "chunk_id").equal (.string chunkId) &&
  (success.get "plan_fingerprint").equal (.string plan.fingerprint) &&
  (success.get "manifest_fingerprint").equal (.string plan.manifestFingerprint) &&
  (success.get "dictionary_fingerprint").equal (.string plan.dictionaryFingerprint) &&
  (success.get "snapshot_id").equal (current.get "snapshot_id") &&
  (current.get "index_version").equal (.number 12) &&
  (current.get "chunk_id").equal (.string chunkId) &&
  (current.get "manifest_fingerprint").equal (.string plan.manifestFingerprint) &&
  (success.get "schema_fingerprint").truthy &&
  (success.get "schema_fingerprint").equal (current.get "schema_fingerprint")

/-- The sources that a chunk validates, and its schema; `none` where it is stale. -/
def validateChunk (plan : ChunkedPlan) (chunk : PlanChunk) (directory : ChunkDirectory)
    (success : Except String Value) (seen : List String) :
    Except String (Option (List Value × Value)) := do
  let success ← (← success).asRecord
  let current ← (← directory.current).asRecord
  let actual ← ((success.lookup "source_ids").getD (.array [])).asSet
  let tables ← ((current.lookup "tables").getD (.object [])).asRecord
  let checksums := (success.lookup "checksums").getD (.object [])
  let checksumOk ← tablesChecked directory checksums tables
  if recordsAgree plan chunk.chunkId success current &&
      sameSources actual chunk.sourceIds && !seenSource seen actual && checksumOk then
    .ok (some (actual, success.get "schema_fingerprint"))
  else .ok none

/-- What the loop over the chunks carries. -/
structure Validation where
  failed : Bool
  seenSources : List String
  schemaFingerprints : List Value

def Validation.fail (state : Validation) : Validation := { state with failed := true }

def validationStep (plan : ChunkedPlan) (directories : String → ChunkDirectory)
    (state : Validation) (chunk : PlanChunk) : Validation :=
  match (directories chunk.chunkId).success with
  | none => state.fail
  | some success =>
      match validateChunk plan chunk (directories chunk.chunkId) success state.seenSources with
      | .error _ => state.fail
      | .ok none => state.fail
      | .ok (some (actual, schema)) =>
          let state :=
            { state with seenSources := state.seenSources ++ actual.filterMap Value.asString }
          -- `add` raises behind the update of the sources
          if schema.hashable then
            { state with schemaFingerprints := state.schemaFingerprints ++ [schema] }
          else state.fail

def ChunkedPlan.sources (plan : ChunkedPlan) : List String := plan.chunks.flatMap (·.sourceIds)

/-- `sorted` compares strings with strings and numbers with numbers. -/
def sortable (values : List Value) : Bool :=
  values.all (fun value => match value with | .string _ => true | _ => false) ||
    values.all (fun value => match value with | .number _ => true | _ => false) ||
    values.all fun value => values.all fun other => value.equal other

/-- Whether the report says `valid`; an error where there is no report. -/
def validateChunks (plan : ChunkedPlan) (dictionary : Option String)
    (directories : String → ChunkDirectory) : Except String Bool :=
  if dictionary ≠ some plan.dictionaryFingerprint then .error "dictionary is missing or stale"
  else
    let final := plan.expected.foldl (validationStep plan directories) ⟨false, [], []⟩
    let failed := final.failed ||
      !(final.seenSources.all (· ∈ plan.sources) && plan.sources.all (· ∈ final.seenSources))
    if sortable final.schemaFingerprints then .ok !failed else .error "TypeError"

/-! ### The rows by chunk -/

def chunkIds (rows : List PlanChunk) : List String := rows.map PlanChunk.chunkId

theorem chunkIds_insertRow (rows : List PlanChunk) (row : PlanChunk) :
    chunkIds (insertRow rows row) =
      if row.chunkId ∈ chunkIds rows then chunkIds rows else chunkIds rows ++ [row.chunkId] := by
  have hany : rows.any (·.chunkId = row.chunkId) = true ↔ row.chunkId ∈ chunkIds rows := by
    simp [chunkIds]
  by_cases h : row.chunkId ∈ chunkIds rows
  · rw [insertRow, if_pos (hany.mpr h), if_pos h, chunkIds, chunkIds, List.map_map]
    refine List.map_congr_left fun other _ => ?_
    rw [Function.comp_apply]
    split_ifs with heq
    · exact heq.symm
    · rfl
  · rw [insertRow, if_neg (mt hany.mp h), if_neg h, chunkIds, chunkIds, List.map_append,
      List.map_singleton]

theorem mem_insertRow {rows : List PlanChunk} {row other : PlanChunk}
    (h : other ∈ insertRow rows row) : other ∈ rows ∨ other = row := by
  unfold insertRow at h
  split_ifs at h
  · obtain ⟨old, hold, rfl⟩ := List.mem_map.mp h
    split_ifs
    · exact Or.inr rfl
    · exact Or.inl hold
  · simpa using h

/-- The rows by chunk: one for each id of the plan, and each a row of the plan. -/
theorem foldl_insertRow (chunks : List PlanChunk) :
    ∀ {rows : List PlanChunk}, (chunkIds rows).Nodup →
      (chunkIds (chunks.foldl insertRow rows)).Nodup ∧
      (∀ id, id ∈ chunkIds (chunks.foldl insertRow rows) ↔
        id ∈ chunkIds rows ∨ id ∈ chunkIds chunks) ∧
      ∀ row ∈ chunks.foldl insertRow rows, row ∈ rows ∨ row ∈ chunks := by
  induction chunks with
  | nil => exact fun h => ⟨h, fun id => by simp [chunkIds], fun row => Or.inl⟩
  | cons chunk chunks ih =>
    intro rows h
    have hids := chunkIds_insertRow rows chunk
    have hnodup : (chunkIds (insertRow rows chunk)).Nodup := by
      rw [hids]
      split_ifs with hmem
      · exact h
      · exact List.concat_eq_append ▸ List.Nodup.concat hmem h
    have hmem : ∀ id, id ∈ chunkIds (insertRow rows chunk) ↔
        id ∈ chunkIds rows ∨ id = chunk.chunkId := by
      intro id
      rw [hids]
      split_ifs with hseen
      · exact ⟨Or.inl, fun hid => hid.elim (fun hid => hid) fun hid => hid ▸ hseen⟩
      · rw [List.mem_append, List.mem_singleton]
    obtain ⟨hall, hfinal, hrows⟩ := ih hnodup
    refine ⟨hall, fun id => ?_, fun row hrow => ?_⟩
    · rw [List.foldl_cons, hfinal, hmem, chunkIds, chunkIds, chunkIds, List.map_cons,
        List.mem_cons, or_assoc]
    · rcases hrows row hrow with hrow | hrow
      · rcases mem_insertRow hrow with hrow | rfl
        · exact Or.inl hrow
        · exact Or.inr List.mem_cons_self
      · exact Or.inr (List.mem_cons_of_mem _ hrow)

theorem chunkIds_nodup_nil : (chunkIds []).Nodup := List.nodup_nil

theorem mem_expected {plan : ChunkedPlan} {row : PlanChunk} (h : row ∈ plan.expected) :
    row ∈ plan.chunks :=
  ((foldl_insertRow plan.chunks chunkIds_nodup_nil).2.2 row h).resolve_left List.not_mem_nil

theorem exists_expected {plan : ChunkedPlan} {chunk : PlanChunk} (h : chunk ∈ plan.chunks) :
    ∃ row ∈ plan.expected, row.chunkId = chunk.chunkId := by
  have hid : chunk.chunkId ∈ chunkIds plan.expected :=
    ((foldl_insertRow plan.chunks chunkIds_nodup_nil).2.1 _).mpr (Or.inr (List.mem_map_of_mem h))
  exact List.mem_map.mp hid

/-! ### What the script has checked -/

/-- A listed table stands in the directory, with the digest that the checksums record. -/
def TableStored (directory : ChunkDirectory) (checksums value : Value) : Prop :=
  ∃ path rel digest recorded, tablePath directory value = .ok (path, rel) ∧
    directory.file path = some digest ∧ checksums.asRecord = .ok recorded ∧
      Record.get recorded rel = .string digest

theorem tableChecked_iff {directory : ChunkDirectory} {checksums value : Value} :
    tableChecked directory checksums value = .ok true ↔
      TableStored directory checksums value := by
  rw [tableChecked, bind_ok_iff]
  constructor
  · rintro ⟨⟨path, rel⟩, hpath, h⟩
    dsimp only at h
    cases hfile : directory.file path with
    | none =>
      rw [hfile] at h
      exact nomatch h
    | some digest =>
      rw [hfile] at h
      obtain ⟨recorded, hrecorded, hdigest⟩ := bind_ok_iff.mp h
      exact ⟨path, rel, digest, recorded, hpath, hfile, hrecorded,
        Value.equal_string_iff.mp (Except.ok.inj hdigest)⟩
  · rintro ⟨path, rel, digest, recorded, hpath, hfile, hrecorded, hdigest⟩
    refine ⟨(path, rel), hpath, ?_⟩
    dsimp only
    rw [hfile]
    exact bind_ok_iff.mpr ⟨recorded, hrecorded,
      congrArg Except.ok (Value.equal_string_iff.mpr hdigest)⟩

theorem tablesChecked_iff {directory : ChunkDirectory} {checksums : Value} {tables : Record} :
    tablesChecked directory checksums tables = .ok true ↔
      ∀ table ∈ tables, TableStored directory checksums table.2 := by
  induction tables with
  | nil => exact ⟨fun _ _ h => absurd h List.not_mem_nil, fun _ => rfl⟩
  | cons table tables ih =>
    rw [tablesChecked, bind_ok_iff, List.forall_mem_cons, ← tableChecked_iff, ← ih]
    constructor
    · rintro ⟨checked, hchecked, h⟩
      obtain ⟨others, hothers, hboth⟩ := bind_ok_iff.mp h
      obtain ⟨rfl, rfl⟩ := Bool.and_eq_true_iff.mp (Except.ok.inj hboth)
      exact ⟨hchecked, hothers⟩
    · rintro ⟨hchecked, hothers⟩
      exact ⟨true, hchecked, bind_ok_iff.mpr ⟨true, hothers, rfl⟩⟩

/-- The members that the script takes of the two records. -/
def sourceIds (success : Record) : Value := (success.lookup "source_ids").getD (.array [])

def checksumsOf (success : Record) : Value := (success.lookup "checksums").getD (.object [])

def tablesOf (current : Record) : Value := (current.lookup "tables").getD (.object [])

/-- What is checked of a chunk by itself. -/
structure ChunkChecks (plan : ChunkedPlan) (chunk : PlanChunk) (directory : ChunkDirectory)
    (success current : Record) (actual : List Value) : Prop where
  success_eq : directory.success = some (.ok (.object success))
  current_eq : directory.current = .ok (.object current)
  actual_eq : (sourceIds success).asSet = .ok actual
  agree : recordsAgree plan chunk.chunkId success current = true
  sources : sameSources actual chunk.sourceIds = true
  tables : ∃ tables, (tablesOf current).asRecord = .ok tables ∧
    ∀ table ∈ tables, TableStored directory (checksumsOf success) table.2

theorem asRecord_ok_iff {value : Value} {record : Record} :
    value.asRecord = .ok record ↔ value = .object record := by
  cases value with
  | object members =>
    exact ⟨fun h => congrArg Value.object (Except.ok.inj h), fun h => by
      obtain rfl := Value.object.inj h
      rfl⟩
  | _ => exact ⟨fun h => (nomatch h), fun h => (nomatch h)⟩

theorem sameSources_iff {actual : List Value} {expected : List String} :
    sameSources actual expected = true ↔
      ∀ value, value ∈ actual ↔ ∃ source ∈ expected, value = .string source := by
  simp only [sameSources, Bool.and_eq_true, List.all_eq_true, List.any_eq_true,
    Value.equal_string_iff]
  constructor
  · rintro ⟨hactual, hexpected⟩ value
    refine ⟨hactual value, ?_⟩
    rintro ⟨source, hsource, rfl⟩
    obtain ⟨value, hvalue, rfl⟩ := hexpected source hsource
    exact hvalue
  · intro h
    exact ⟨fun value hvalue => (h value).mp hvalue, fun source hsource =>
      ⟨_, (h _).mpr ⟨source, hsource, rfl⟩, rfl⟩⟩

theorem seenSource_eq_false {actual : List Value} {expected seen : List String}
    (h : sameSources actual expected = true) :
    seenSource seen actual = false ↔ ∀ source ∈ expected, source ∉ seen := by
  rw [← Bool.not_eq_true, seenSource]
  simp only [List.any_eq_true, Value.equal_string_iff]
  rw [sameSources_iff] at h
  constructor
  · intro hnone source hsource hseen
    exact hnone ⟨_, (h _).mpr ⟨source, hsource, rfl⟩, source, hseen, rfl⟩
  · rintro hnew ⟨value, hvalue, source, hseen, rfl⟩
    obtain ⟨other, hother, heq⟩ := (h _).mp hvalue
    exact hnew other hother (Value.string.inj heq ▸ hseen)

/-- What makes a chunk succeed. -/
theorem validateChunk_iff {plan : ChunkedPlan} {chunk : PlanChunk} {directory : ChunkDirectory}
    {read : Except String Value} (hread : directory.success = some read) {seen : List String}
    {actual : List Value} {schema : Value} :
    validateChunk plan chunk directory read seen = .ok (some (actual, schema)) ↔
      ∃ success current, ChunkChecks plan chunk directory success current actual ∧
        (∀ source ∈ chunk.sourceIds, source ∉ seen) ∧
        schema = success.get "schema_fingerprint" := by
  rw [validateChunk]
  simp only [bind_ok_iff, asRecord_ok_iff]
  constructor
  · rintro ⟨_, rfl, success, rfl, _, hcurrent, current, rfl, found, hactual, tables, htables,
      checksumOk, hchecked, h⟩
    split_ifs at h with hvalid
    swap
    · exact nomatch h
    obtain ⟨rfl, rfl⟩ := Prod.mk.inj (Option.some.inj (Except.ok.inj h))
    simp only [Bool.and_eq_true, Bool.not_eq_true'] at hvalid
    obtain ⟨⟨⟨hagree, hsources⟩, hseen⟩, rfl⟩ := hvalid
    exact ⟨success, current, ⟨hread, hcurrent, hactual, hagree, hsources, tables,
      asRecord_ok_iff.mpr htables, tablesChecked_iff.mp hchecked⟩,
      (seenSource_eq_false hsources).mp hseen, rfl⟩
  · rintro ⟨success, current, hchecks, hnew, rfl⟩
    obtain ⟨tables, htables, hstored⟩ := hchecks.tables
    have hsuccess := Option.some.inj (hread.symm.trans hchecks.success_eq)
    refine ⟨_, hsuccess, success, rfl, _, hchecks.current_eq, current, rfl, actual,
      hchecks.actual_eq, tables, asRecord_ok_iff.mp htables, true, tablesChecked_iff.mpr hstored,
      ?_⟩
    rw [if_pos]
    rw [hchecks.agree, hchecks.sources, (seenSource_eq_false hchecks.sources).mpr hnew]
    rfl

/-- The schema that a success record names. -/
def schemaOf (directory : ChunkDirectory) : Value :=
  match directory.success with
  | some (.ok (.object success)) => Record.get success "schema_fingerprint"
  | _ => .null

theorem ChunkChecks.schema_eq {plan : ChunkedPlan} {chunk : PlanChunk}
    {directory : ChunkDirectory} {success current : Record} {actual : List Value}
    (h : ChunkChecks plan chunk directory success current actual) :
    schemaOf directory = success.get "schema_fingerprint" := by
  rw [schemaOf, h.success_eq]

/-- What is checked of a chunk by itself: all but that its sources are new. -/
def Succeeded (plan : ChunkedPlan) (directories : String → ChunkDirectory) (chunk : PlanChunk) :
    Prop :=
  (∃ success current actual,
    ChunkChecks plan chunk (directories chunk.chunkId) success current actual) ∧
    (schemaOf (directories chunk.chunkId)).hashable = true

section Run

variable {plan : ChunkedPlan} {directories : String → ChunkDirectory}

theorem mem_filterMap_asString {actual : List Value} {expected : List String}
    (h : sameSources actual expected = true) (source : String) :
    source ∈ actual.filterMap Value.asString ↔ source ∈ expected := by
  rw [sameSources_iff] at h
  rw [List.mem_filterMap]
  constructor
  · rintro ⟨value, hvalue, hsource⟩
    obtain ⟨other, hother, rfl⟩ := (h value).mp hvalue
    exact Option.some.inj hsource ▸ hother
  · exact fun hsource => ⟨_, (h _).mpr ⟨source, hsource, rfl⟩, rfl⟩

/-- One chunk: the run goes on without a failure just when the chunk succeeds. -/
theorem validationStep_cases (state : Validation) (chunk : PlanChunk) :
    (validationStep plan directories state chunk).failed = true ∧
        ¬ (state.failed = false ∧ Succeeded plan directories chunk ∧
          ∀ source ∈ chunk.sourceIds, source ∉ state.seenSources) ∨
      Succeeded plan directories chunk ∧
        (∀ source ∈ chunk.sourceIds, source ∉ state.seenSources) ∧
        (validationStep plan directories state chunk).failed = state.failed ∧
        (∀ source, source ∈ (validationStep plan directories state chunk).seenSources ↔
          source ∈ state.seenSources ∨ source ∈ chunk.sourceIds) ∧
        (validationStep plan directories state chunk).schemaFingerprints =
          state.schemaFingerprints ++ [schemaOf (directories chunk.chunkId)] := by
  rw [validationStep]
  cases hread : (directories chunk.chunkId).success with
  | none =>
    refine Or.inl ⟨rfl, fun ⟨_, ⟨⟨_, _, _, hchecks⟩, _⟩, _⟩ => ?_⟩
    exact nomatch hread.symm.trans hchecks.success_eq
  | some read =>
    dsimp only
    have hiff := fun actual schema =>
      @validateChunk_iff plan chunk _ read hread state.seenSources actual schema
    -- a chunk that is read otherwise has not succeeded
    have hfailed : (∀ found, validateChunk plan chunk (directories chunk.chunkId) read
        state.seenSources ≠ .ok (some found)) → ¬ (state.failed = false ∧
          Succeeded plan directories chunk ∧
            ∀ source ∈ chunk.sourceIds, source ∉ state.seenSources) := by
      rintro hnone ⟨_, ⟨⟨success, current, actual, hchecks⟩, _⟩, hnew⟩
      exact hnone _ ((hiff actual _).mpr ⟨success, current, hchecks, hnew, rfl⟩)
    cases hresult : validateChunk plan chunk (directories chunk.chunkId) read
        state.seenSources with
    | error e =>
      exact Or.inl ⟨rfl, hfailed fun found h => nomatch hresult.symm.trans h⟩
    | ok found =>
      cases found with
      | none => exact Or.inl ⟨rfl, hfailed fun found h => nomatch hresult.symm.trans h⟩
      | some found =>
        obtain ⟨actual, schema⟩ := found
        obtain ⟨success, current, hchecks, hnew, rfl⟩ := (hiff actual schema).mp hresult
        dsimp only
        rw [← hchecks.schema_eq]
        split_ifs with hhashable
        · refine Or.inr ⟨⟨⟨success, current, actual, hchecks⟩, hhashable⟩, hnew, rfl,
            fun source => ?_, rfl⟩
          rw [List.mem_append, mem_filterMap_asString hchecks.sources]
        · exact Or.inl ⟨rfl, fun h => hhashable h.2.1.2⟩

theorem validationStep_failed {state : Validation} (h : state.failed = true) (chunk : PlanChunk) :
    (validationStep plan directories state chunk).failed = true := by
  rcases @validationStep_cases plan directories state chunk with
    ⟨hfailed, _⟩ | ⟨_, _, hfailed, _⟩
  · exact hfailed
  · rw [hfailed, h]

theorem foldl_validationStep_failed (chunks : List PlanChunk) :
    ∀ {state : Validation}, state.failed = true →
      (chunks.foldl (validationStep plan directories) state).failed = true := by
  induction chunks with
  | nil => exact fun h => h
  | cons chunk chunks ih => exact fun h => ih (validationStep_failed h chunk)

/-- The loop: no failure just when every chunk succeeds and no source comes twice. -/
theorem foldl_validationStep (chunks : List PlanChunk) :
    ∀ {state : Validation}, state.failed = false →
      ((chunks.foldl (validationStep plan directories) state).failed = false ↔
        (∀ chunk ∈ chunks, Succeeded plan directories chunk ∧
          ∀ source ∈ chunk.sourceIds, source ∉ state.seenSources) ∧
        chunks.Pairwise fun chunk other => ∀ source ∈ other.sourceIds, source ∉ chunk.sourceIds) ∧
      ((chunks.foldl (validationStep plan directories) state).failed = false →
        (∀ source, source ∈ (chunks.foldl (validationStep plan directories) state).seenSources ↔
          source ∈ state.seenSources ∨ ∃ chunk ∈ chunks, source ∈ chunk.sourceIds) ∧
        (chunks.foldl (validationStep plan directories) state).schemaFingerprints =
          state.schemaFingerprints ++ chunks.map fun chunk =>
            schemaOf (directories chunk.chunkId)) := by
  induction chunks with
  | nil =>
    intro state h
    exact ⟨⟨fun _ => ⟨fun _ h => absurd h List.not_mem_nil, .nil⟩, fun _ => h⟩,
      fun _ => ⟨fun source => by simp, (List.append_nil _).symm⟩⟩
  | cons chunk chunks ih =>
    intro state h
    rw [List.foldl_cons, List.forall_mem_cons, List.pairwise_cons]
    rcases @validationStep_cases plan directories state chunk with
      ⟨hfailed, hnot⟩ | ⟨hsucceeded, hnew, hfailed, hseen, hschemas⟩
    · have hall := @foldl_validationStep_failed plan directories chunks _
        hfailed
      refine ⟨⟨fun hfalse => ?_, fun hchecks => absurd ⟨h, hchecks.1.1⟩ hnot⟩, fun hfalse => ?_⟩
      · rw [hall] at hfalse
        exact nomatch hfalse
      · rw [hall] at hfalse
        exact nomatch hfalse
    · obtain ⟨hiff, hfinal⟩ := ih (hfailed.trans h)
      refine ⟨?_, fun hok => ?_⟩
      · rw [hiff]
        constructor
        · rintro ⟨hall, hpairs⟩
          refine ⟨⟨⟨hsucceeded, hnew⟩, fun other hother => ⟨(hall other hother).1, ?_⟩⟩, ?_, hpairs⟩
          · intro source hsource hbefore
            exact (hall other hother).2 source hsource ((hseen source).mpr (Or.inl hbefore))
          · intro other hother source hsource hshared
            exact (hall other hother).2 source hsource ((hseen source).mpr (Or.inr hshared))
        · rintro ⟨⟨_, hall⟩, hfirst, hpairs⟩
          refine ⟨fun other hother => ⟨(hall other hother).1, fun source hsource hbefore => ?_⟩,
            hpairs⟩
          rcases (hseen source).mp hbefore with hbefore | hshared
          · exact (hall other hother).2 source hsource hbefore
          · exact hfirst other hother source hsource hshared
      · obtain ⟨hsources, hall⟩ := hfinal hok
        refine ⟨fun source => ?_, ?_⟩
        · rw [hsources, hseen, or_assoc]
          simp only [List.mem_cons, exists_eq_or_imp]
        · rw [hall, hschemas, List.map_cons, List.append_assoc, List.singleton_append]

end Run

/-! ### What a valid report is worth -/

/-- All that the script checks. -/
structure ChecksPass (plan : ChunkedPlan) (dictionary : Option String)
    (directories : String → ChunkDirectory) : Prop where
  dictionary_eq : dictionary = some plan.dictionaryFingerprint
  succeeded : ∀ chunk ∈ plan.expected, Succeeded plan directories chunk
  disjoint : plan.expected.Pairwise fun chunk other =>
    ∀ source ∈ other.sourceIds, source ∉ chunk.sourceIds
  covered : ∀ source ∈ plan.sources, ∃ chunk ∈ plan.expected, source ∈ chunk.sourceIds
  schemas : sortable (plan.expected.map fun chunk => schemaOf (directories chunk.chunkId)) = true

theorem validateChunks_iff {plan : ChunkedPlan} {dictionary : Option String}
    {directories : String → ChunkDirectory} :
    validateChunks plan dictionary directories = .ok true ↔
      ChecksPass plan dictionary directories := by
  obtain ⟨hiff, hfinal⟩ := @foldl_validationStep plan directories plan.expected ⟨false, [], []⟩ rfl
  by_cases hdictionary : dictionary = some plan.dictionaryFingerprint
  swap
  · rw [validateChunks, if_pos hdictionary]
    exact ⟨fun h => (nomatch h), fun h => absurd h.dictionary_eq hdictionary⟩
  rw [validateChunks, if_neg (not_not.mpr hdictionary)]
  dsimp only
  generalize plan.expected.foldl (validationStep plan directories) ⟨false, [], []⟩ = final
    at hiff hfinal
  have hseen : ∀ chunk ∈ plan.expected, ∀ source ∈ chunk.sourceIds, source ∈ plan.sources :=
    fun chunk hchunk source hsource =>
      List.mem_flatMap.mpr ⟨chunk, mem_expected hchunk, hsource⟩
  constructor
  · intro h
    split_ifs at h with hsortable
    obtain ⟨hfailed, hsources⟩ : final.failed = false ∧
        (final.seenSources.all (· ∈ plan.sources) &&
          plan.sources.all (· ∈ final.seenSources)) = true := by
      simpa using h
    obtain ⟨hall, hpairs⟩ := hiff.mp hfailed
    obtain ⟨hmem, hschemas⟩ := hfinal hfailed
    refine ⟨hdictionary, fun chunk hchunk => (hall chunk hchunk).1, hpairs,
      fun source hsource => ?_, by rwa [hschemas, List.nil_append] at hsortable⟩
    have hin := List.all_eq_true.mp (Bool.and_eq_true_iff.mp hsources).2 source hsource
    exact ((hmem source).mp (of_decide_eq_true hin)).resolve_left List.not_mem_nil
  · intro h
    have hfailed : final.failed = false := hiff.mpr
      ⟨fun chunk hchunk => ⟨h.succeeded chunk hchunk, fun _ _ => List.not_mem_nil⟩, h.disjoint⟩
    obtain ⟨hmem, hschemas⟩ := hfinal hfailed
    have hsortable : sortable final.schemaFingerprints = true := by
      rw [hschemas, List.nil_append]
      exact h.schemas
    have hsources : (final.seenSources.all (· ∈ plan.sources) &&
        plan.sources.all (· ∈ final.seenSources)) = true := by
      simp only [Bool.and_eq_true, List.all_eq_true, decide_eq_true_eq]
      refine ⟨fun source hsource => ?_, fun source hsource => ?_⟩
      · rcases (hmem source).mp hsource with hnil | ⟨chunk, hchunk, hin⟩
        · exact absurd hnil List.not_mem_nil
        · exact hseen chunk hchunk source hin
      · exact (hmem source).mpr (Or.inr (h.covered source hsource))
    rw [if_pos hsortable, hfailed, hsources]
    rfl

def indexTables : List String := ["files", "schemas", "access_levels", "baskets"]

/-- The two records of a chunk, its plan and each other, as a valid report has them agree. -/
structure RecordsAgree (plan : ChunkedPlan) (chunkId : String) (success current : Record) :
    Prop where
  state : success.get "state" = .string "succeeded"
  chunk : success.get "chunk_id" = .string chunkId ∧ current.get "chunk_id" = .string chunkId
  snapshot : success.get "snapshot_id" ≠ .null ∧
    (success.get "snapshot_id").equal (current.get "snapshot_id") = true
  plan_eq : success.get "plan_fingerprint" = .string plan.fingerprint
  manifest : success.get "manifest_fingerprint" = .string plan.manifestFingerprint ∧
    current.get "manifest_fingerprint" = .string plan.manifestFingerprint
  dictionary : success.get "dictionary_fingerprint" = .string plan.dictionaryFingerprint ∧
    current.get "dictionary_fingerprint" = .string plan.dictionaryFingerprint
  schema : (success.get "schema_fingerprint").truthy = true ∧
    (success.get "schema_fingerprint").equal (current.get "schema_fingerprint") = true

/-- A chunk that a commit may use. -/
def ChunkSound (plan : ChunkedPlan) (chunkId : String) (directory : ChunkDirectory) : Prop :=
  ∃ success current tables, directory.success = some (.ok (.object success)) ∧
    directory.current = .ok (.object current) ∧ RecordsAgree plan chunkId success current ∧
    tablesOf current = .object tables ∧ (∀ name ∈ indexTables, (tables.lookup name).isSome) ∧
    ∀ table ∈ tables, TableStored directory (checksumsOf success) table.2

/-- The success record of a chunk names a source. -/
def Validates (directory : ChunkDirectory) (source : String) : Prop :=
  ∃ success actual, directory.success = some (.ok (.object success)) ∧
    (sourceIds success).asSet = .ok actual ∧ .string source ∈ actual

structure ChunksSound (plan : ChunkedPlan) (directories : String → ChunkDirectory) : Prop where
  chunks : ∀ id ∈ chunkIds plan.chunks, ChunkSound plan id (directories id)
  sources : ∀ source ∈ plan.sources, ∃! id, id ∈ chunkIds plan.chunks ∧
    Validates (directories id) source

/-- What the script does not look at: the four tables, a snapshot id that is there, and the
    dictionary of `current.json`. -/
def CurrentComplete (plan : ChunkedPlan) (directory : ChunkDirectory) : Prop :=
  ∀ (current tables : Record), directory.current = .ok (.object current) →
    tablesOf current = .object tables →
    (∀ name ∈ indexTables, (tables.lookup name).isSome) ∧
      current.get "snapshot_id" ≠ .null ∧
      current.get "dictionary_fingerprint" = .string plan.dictionaryFingerprint

theorem equal_null_iff {value other : Value} (h : value.equal other = true) :
    value = .null ↔ other = .null := by
  constructor
  · rintro rfl
    cases other with
    | null => rfl
    | _ => exact nomatch h
  · rintro rfl
    cases value with
    | null => rfl
    | _ => exact nomatch h

section Sound

variable {plan : ChunkedPlan} {dictionary : Option String}
  {directories : String → ChunkDirectory}

theorem recordsAgree_iff {chunkId : String} {success current : Record}
    (h : recordsAgree plan chunkId success current = true) :
    RecordsAgree plan chunkId success current ↔ current.get "snapshot_id" ≠ .null ∧
      current.get "dictionary_fingerprint" = .string plan.dictionaryFingerprint := by
  simp only [recordsAgree, Bool.and_eq_true, Value.equal_string_iff] at h
  obtain ⟨⟨⟨⟨⟨⟨⟨⟨⟨⟨⟨_, hstate⟩, hchunk⟩, hplan⟩, hmanifest⟩, hdictionary⟩, hsnapshot⟩, _⟩,
    hcurrent⟩, hcurrentManifest⟩, hschema⟩, hschemas⟩ := h
  have hnull := not_congr (equal_null_iff hsnapshot)
  exact ⟨fun h => ⟨hnull.mp h.snapshot.1, h.dictionary.2⟩, fun h =>
    ⟨hstate, ⟨hchunk, hcurrent⟩, ⟨hnull.mpr h.1, hsnapshot⟩, hplan,
      ⟨hmanifest, hcurrentManifest⟩, ⟨hdictionary, h.2⟩, hschema, hschemas⟩⟩

theorem ChecksPass.exists_checks (h : ChecksPass plan dictionary directories) {id : String}
    (hid : id ∈ chunkIds plan.chunks) :
    ∃ chunk ∈ plan.expected, chunk.chunkId = id ∧ ∃ success current actual,
      ChunkChecks plan chunk (directories id) success current actual := by
  obtain ⟨chunk, hchunk, rfl⟩ := List.mem_map.mp hid
  obtain ⟨row, hrow, hsame⟩ := exists_expected hchunk
  exact ⟨row, hrow, hsame, hsame ▸ (h.succeeded row hrow).1⟩

/-- Each source of the plan is named by one chunk alone. -/
theorem ChecksPass.existsUnique_validates (h : ChecksPass plan dictionary directories)
    {source : String} (hsource : source ∈ plan.sources) :
    ∃! id, id ∈ chunkIds plan.chunks ∧ Validates (directories id) source := by
  -- a success record names the sources of its row
  have hnames : ∀ row ∈ plan.expected, Validates (directories row.chunkId) source →
      source ∈ row.sourceIds := by
    rintro row hrow ⟨success, actual, hsuccess, hactual, hmem⟩
    obtain ⟨found, current, others, hchecks⟩ := (h.succeeded row hrow).1
    have hrecord := Option.some.inj (hchecks.success_eq.symm.trans hsuccess)
    obtain rfl := Value.object.inj (Except.ok.inj hrecord)
    obtain rfl := Except.ok.inj (hchecks.actual_eq.symm.trans hactual)
    obtain ⟨other, hother, heq⟩ := (sameSources_iff.mp hchecks.sources _).mp hmem
    exact Value.string.inj heq ▸ hother
  obtain ⟨row, hrow, hin⟩ := h.covered source hsource
  refine ⟨row.chunkId, ⟨List.mem_map_of_mem (mem_expected hrow), ?_⟩, ?_⟩
  · obtain ⟨success, current, actual, hchecks⟩ := (h.succeeded row hrow).1
    exact ⟨success, actual, hchecks.success_eq, hchecks.actual_eq,
      (sameSources_iff.mp hchecks.sources _).mpr ⟨source, hin, rfl⟩⟩
  · rintro id ⟨hid, hvalidates⟩
    obtain ⟨other, hother, rfl, _⟩ := h.exists_checks hid
    have hshared := hnames other hother hvalidates
    by_contra hne
    have hsymm : Std.Symm fun chunk other : PlanChunk =>
        ∀ source ∈ other.sourceIds, source ∉ chunk.sourceIds :=
      ⟨fun _ _ h source hs ho => h source ho hs⟩
    exact h.disjoint.forall hother hrow (fun heq => hne (heq ▸ rfl)) source hin hshared

/-- **A valid report is sound** just when a check fails, or every `current.json` names the four
    tables, a snapshot and the dictionary of the plan. -/
theorem validateChunks_sound_iff (plan : ChunkedPlan) (dictionary : Option String)
    (directories : String → ChunkDirectory) :
    (validateChunks plan dictionary directories = .ok true → ChunksSound plan directories) ↔
      (ChecksPass plan dictionary directories →
        ∀ id ∈ chunkIds plan.chunks, CurrentComplete plan (directories id)) := by
  rw [validateChunks_iff]
  refine forall_congr' fun hpass => ⟨fun h id hid current tables hcurrent htables => ?_, fun h => ?_⟩
  · obtain ⟨success, other, others, _, hother, hagree, hothers, hnamed, _⟩ := h.chunks id hid
    obtain rfl := Value.object.inj (Except.ok.inj (hcurrent.symm.trans hother))
    obtain rfl := Value.object.inj (htables.symm.trans hothers)
    have hsnapshot := equal_null_iff hagree.snapshot.2
    exact ⟨hnamed, fun hnull => hagree.snapshot.1 (hsnapshot.mpr hnull), hagree.dictionary.2⟩
  · refine ⟨fun id hid => ?_, fun source hsource => hpass.existsUnique_validates hsource⟩
    obtain ⟨row, _, rfl, success, current, actual, hchecks⟩ := hpass.exists_checks hid
    obtain ⟨tables, htables, hstored⟩ := hchecks.tables
    have hobject := asRecord_ok_iff.mp htables
    obtain ⟨hnamed, hcomplete⟩ := h _ hid current tables hchecks.current_eq hobject
    exact ⟨success, current, tables, hchecks.success_eq, hchecks.current_eq,
      (recordsAgree_iff hchecks.agree).mpr hcomplete, hobject, hnamed, hstored⟩

end Sound

/-! ### A chunk without tables -/

/-- The plan of one chunk with one source. -/
def onePlan : ChunkedPlan := ⟨"p", "m", "d", [⟨"c", ["s"]⟩]⟩

/-- Records that agree, and list no table. -/
def emptyDirectory : ChunkDirectory where
  path := ⟨"/", ["c"]⟩
  success := some <| .ok <| .object [
    ("chunk_id", .string "c"), ("dictionary_fingerprint", .string "d"),
    ("format", .string "root4duckdb-chunk-success-v2"), ("manifest_fingerprint", .string "m"),
    ("plan_fingerprint", .string "p"), ("schema_fingerprint", .string "x"),
    ("source_ids", .array [.string "s"]), ("state", .string "succeeded")]
  current := .ok <| .object [
    ("chunk_id", .string "c"), ("index_version", .number 12),
    ("manifest_fingerprint", .string "m"), ("schema_fingerprint", .string "x"),
    ("tables", .object [])]
  file := fun _ => none

/-- A chunk without a single table file is valid. -/
theorem empty_tables_valid :
    ¬ (validateChunks onePlan (some "d") (fun _ => emptyDirectory) = .ok true →
      ChunksSound onePlan fun _ => emptyDirectory) := by
  intro h
  obtain ⟨_, current, tables, _, hcurrent, _, htables, hnamed, _⟩ :=
    (h (by decide +kernel)).chunks "c" (by decide)
  obtain rfl := Value.object.inj (Except.ok.inj hcurrent)
  obtain rfl := Value.object.inj htables
  exact absurd (hnamed "files" (by decide)) (by decide)

end RootLake.Production

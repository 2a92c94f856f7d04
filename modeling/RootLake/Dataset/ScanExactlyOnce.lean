/-
  RootLake/Dataset/ScanExactlyOnce.lean
  =====================================
  **When the scan of a worker is exactly-once.**

  The rows a worker owes are computed from its claimed tasks alone (`expectedRows`).
  What it delivers is the same rows, with the page that is left in the typed buffer
  repeated at every handover to a further task.  So the two agree exactly when no
  value of such a page passes the row filters, and always for the double transport.
-/
import RootLake.Dataset.ScanTrace

namespace RootLake.Dataset

open Ieee Batch

section

variable {Filter : Type} (env : ScanEnvironment Filter)

/-! ### What a worker owes -/

/-- The rows of an entry before the element filters: one for each decoded value, with the
    event key, the entry and the file of the task it was decoded from. -/
def decodedRows (task : RootBasketTask) (entry : UInt64) : Except IOException (List DatasetRow) :=
  let page := entryPage env task entry
  match entryAnswer env task entry with
  | .error e => .error e
  | .ok none => .ok []
  | .ok (some (.none _)) => .ok []
  | .ok (some (.serializedValues values)) => .ok (values.map (valueRow env page))
  | .ok (some (.paged pages)) =>
      match pages.after with
      | .failed e => .error e
      | _ => .ok (pages.pages.flatten.map (valueRow env page))

/-- The output rows of decoded rows: those that pass, projected. -/
def outputRows (rows : List DatasetRow) : List (List OutputCell) :=
  (rows.filter (passesFilters env.evaluate env.bind env.elementFilters)).map
    (emitProjectedRow env.bind env.outputColumnIds)

/-- **The rows of a list of claimed tasks**, each once and in order. -/
def expectedRows : Option (String × String) → List RootBasketTask →
    Except IOException (List (List OutputCell))
  | _, [] => .ok []
  | openFile, task :: rest => do
      ensureFile env openFile task
      let rows ← task.entries.mapM (decodedRows env task)
      let more ← expectedRows (taskFile task) rest
      return outputRows env rows.flatten ++ more

/-- No value of a page left in the buffer by one task passes the filters when the next task
    is claimed. -/
def CleanHandovers : EntryPage env.indexCount → List RootBasketTask → Prop
  | _, [] => True
  | page, task :: rest =>
      (∀ v ∈ page.values, valuePasses env page v = false) ∧
        CleanHandovers (taskPage env page task) rest

/-- A worker that draws the given groups delivers a result, however many calls and however
    much fuel it is given beyond a bound. -/
def Delivers (counters : DatasetCounters) (groups : List RootFileTaskGroup)
    (result : Except (Stop IOException) (List (List OutputCell))) : Prop :=
  ∃ bound, ∀ fuel calls, bound < fuel → bound < calls →
    scanCalls env fuel calls (counters, { upcomingGroups := groups }) = result

/-- The tasks claimed by a worker that draws the given groups. -/
def groupTasks (groups : List RootFileTaskGroup) : List RootBasketTask :=
  claimedTasks env { upcomingGroups := groups }

variable {env}

/-! ### Rows and events -/

theorem rowsOf_map_valueEvent (page : EntryPage env.indexCount)
    (values : List (DecodedValue env.indexCount)) :
    rowsOf (values.map (valueEvent env page)) =
      outputRows env (values.map (valueRow env page)) := by
  induction values with
  | nil => rfl
  | cons v vs ih =>
    rw [List.map_cons, List.map_cons, valueEvent]
    unfold outputRows at ih ⊢
    by_cases hpass : valuePasses env page v = true
    · have hpass' : passesFilters env.evaluate env.bind env.elementFilters
          (valueRow env page v) = true := hpass
      rw [if_pos hpass, rowsOf, ih, List.filter_cons_of_pos hpass', List.map_cons]
    · have hpass' : ¬ passesFilters env.evaluate env.bind env.elementFilters
          (valueRow env page v) = true := hpass
      rw [if_neg hpass, rowsOf, ih, List.filter_cons_of_neg hpass']

theorem quiet_map_valueEvent (page : EntryPage env.indexCount)
    (values : List (DecodedValue env.indexCount)) : Quiet (values.map (valueEvent env page)) :=
  pageEvents_quiet { page with values := values }

theorem outputRows_append (first second : List DatasetRow) :
    outputRows env (first ++ second) = outputRows env first ++ outputRows env second := by
  unfold outputRows
  rw [List.filter_append, List.map_append]

/-- The pages of an entry, one behind the other, are its values. -/
theorem flatMap_pageEvents (page : EntryPage env.indexCount)
    (pages : List (List (DecodedValue env.indexCount))) :
    pages.flatMap (fun values => pageEvents env { page with values := values }) =
      pages.flatten.map (valueEvent env page) := by
  induction pages with
  | nil => rfl
  | cons values rest ih =>
    rw [List.flatMap_cons, ih, List.flatten_cons, List.map_append]
    rfl

/-- The events of an entry deliver its rows. -/
theorem outcome_entryEvents (task : RootBasketTask) (entry : UInt64) :
    outcome (entryEvents env task entry) = outputRows env <$> decodedRows env task entry := by
  unfold entryEvents decodedRows
  cases entryAnswer env task entry with
  | error e => rfl
  | ok answer =>
    cases answer with
    | none => rfl
    | some answer =>
      cases answer with
      | none leftover => rfl
      | serializedValues values =>
        have hpage : pageEvents env { entryPage env task entry with values := values } =
            values.map (valueEvent env (entryPage env task entry)) := rfl
        dsimp only
        rw [hpage, outcome_of_quiet (quiet_map_valueEvent (entryPage env task entry) values),
          rowsOf_map_valueEvent]
        rfl
      | paged pages =>
        dsimp only
        unfold openEvents
        rw [flatMap_pageEvents, outcome_append (quiet_map_valueEvent _ _), rowsOf_map_valueEvent]
        cases pages.after with
        | closed => simp [Functor.map, Except.map]
        | pending => simp [Functor.map, Except.map]
        | failed e => rfl

theorem outcome_append_ok {past rest : List ScanEvent} {rows : List (List OutputCell)}
    (h : outcome past = .ok rows) : outcome (past ++ rest) = (rows ++ ·) <$> outcome rest := by
  have hquiet : Quiet past := by
    by_contra hnot
    obtain ⟨e, he⟩ := outcome_error_of_not_quiet hnot
    rw [h] at he
    cases he
  have hrows : rowsOf past = rows := by
    rw [outcome_of_quiet hquiet] at h
    exact Except.ok.inj h
  rw [outcome_append hquiet, hrows]

/-- The entries of a task deliver their rows in order. -/
theorem outcome_entries (task : RootBasketTask) :
    ∀ entries : List UInt64,
      outcome (entries.flatMap (entryEvents env task)) =
        (fun rows => outputRows env rows.flatten) <$> entries.mapM (decodedRows env task) := by
  intro entries
  induction entries with
  | nil => rfl
  | cons entry entries ih =>
    have hentry := @outcome_entryEvents _ env task entry
    rw [List.flatMap_cons, List.mapM_cons]
    cases hdecoded : decodedRows env task entry with
    | error e =>
      rw [hdecoded] at hentry
      exact outcome_append_error hentry
    | ok rows =>
      rw [hdecoded] at hentry
      rw [outcome_append_ok hentry, ih]
      cases entries.mapM (decodedRows env task) with
      | error e => rfl
      | ok more => simp [Functor.map, Except.map, bind, Except.bind, pure, Except.pure,
          outputRows_append]

/-! ### Handovers -/

/-- The number of rows repeated at the handovers. -/
def repeatedRows (env : ScanEnvironment Filter) :
    EntryPage env.indexCount → List RootBasketTask → Nat
  | _, [] => 0
  | page, task :: rest =>
      (rowsOf (pageEvents env (visiblePage env page))).length +
        repeatedRows env (taskPage env page task) rest

/-- What a worker delivers, compared with what it owes: both raise the same error, or the
    delivered rows are as many more as are repeated. -/
inductive Compared (env : ScanEnvironment Filter) (repeated : Nat) :
    Except IOException (List (List OutputCell)) → Except IOException (List (List OutputCell)) →
    Prop where
  | failed (e : IOException) : Compared env repeated (.error e) (.error e)
  | rows {owed delivered : List (List OutputCell)} :
      delivered.length = owed.length + repeated → (repeated = 0 → delivered = owed) →
      Compared env repeated (.ok owed) (.ok delivered)

/-- **The handover lemma.**  Task by task, the delivered rows are the owed ones behind the
    rows of the page that is still visible. -/
theorem taskEvents_compared :
    ∀ (tasks : List RootBasketTask) (openFile : Option (String × String))
      (page : EntryPage env.indexCount),
      Compared env (repeatedRows env page tasks) (expectedRows env openFile tasks)
        (outcome (taskEvents env openFile page tasks)) := by
  intro tasks
  induction tasks with
  | nil => intro openFile page; exact .rows rfl (fun _ => rfl)
  | cons task rest ih =>
    intro openFile page
    have hrest := ih (taskFile task) (taskPage env page task)
    have hentries := @outcome_entries _ env task task.entries
    rw [expectedRows, taskEvents, repeatedRows]
    simp only [List.append_assoc]
    unfold openFileEvents
    cases ensureFile env openFile task with
    | error e => exact .failed e
    | ok _ =>
    rw [List.nil_append, outcome_append (pageEvents_quiet _)]
    cases hdecoded : task.entries.mapM (decodedRows env task) with
    | error e =>
      rw [hdecoded] at hentries
      rw [outcome_append_error hentries]
      exact .failed e
    | ok rows =>
      rw [hdecoded] at hentries
      rw [outcome_append_ok hentries, List.singleton_append, outcome_idle]
      generalize outcome (taskEvents env (taskFile task) (taskPage env page task) rest) = delivered
        at hrest ⊢
      generalize expectedRows env (taskFile task) rest = owed at hrest ⊢
      cases hrest with
      | failed e => exact .failed e
      | rows hlength hequal =>
        refine .rows ?_ ?_
        · simp only [List.length_append, hlength]
          omega
        · intro hzero
          have hpage : rowsOf (pageEvents env (visiblePage env page)) = [] :=
            List.length_eq_zero_iff.mp (by omega)
          rw [hpage, hequal (by omega)]
          rfl

theorem rowsOf_pageEvents_eq_nil (page : EntryPage env.indexCount) :
    (rowsOf (pageEvents env page)).length = 0 ↔ ∀ v ∈ page.values, valuePasses env page v = false := by
  have hrows : rowsOf (pageEvents env page) = outputRows env (page.values.map (valueRow env page)) :=
    rowsOf_map_valueEvent page page.values
  rw [hrows, List.length_eq_zero_iff]
  unfold outputRows
  rw [List.map_eq_nil_iff, List.filter_eq_nil_iff]
  simp only [List.mem_map, forall_exists_index, and_imp, forall_apply_eq_imp_iff₂,
    Bool.not_eq_true]
  rfl

/-- In the typed transport the handovers are clean when nothing is repeated. -/
theorem repeatedRows_eq_zero_iff (htyped : env.typedTransport = true) :
    ∀ (tasks : List RootBasketTask) (page : EntryPage env.indexCount),
      repeatedRows env page tasks = 0 ↔ CleanHandovers env page tasks := by
  intro tasks
  induction tasks with
  | nil => intro page; exact ⟨fun _ => trivial, fun _ => rfl⟩
  | cons task rest ih =>
    intro page
    have hvisible : visiblePage env page = page := by
      unfold visiblePage
      rw [if_pos htyped]
    rw [repeatedRows, CleanHandovers, hvisible, Nat.add_eq_zero_iff, rowsOf_pageEvents_eq_nil, ih]

/-- The double transport starts every task with an empty buffer. -/
theorem repeatedRows_double (hdouble : env.typedTransport = false) :
    ∀ (tasks : List RootBasketTask) (page : EntryPage env.indexCount),
      repeatedRows env page tasks = 0 := by
  intro tasks
  induction tasks with
  | nil => intro page; rfl
  | cons task rest ih =>
    intro page
    have hvisible : visiblePage env page = { page with values := [] } := by
      unfold visiblePage
      rw [if_neg (by rw [hdouble]; exact Bool.false_ne_true)]
    rw [repeatedRows, hvisible, ih]
    rfl

/-! ### The scan of a worker -/

/-- A fresh worker has an empty page behind it. -/
theorem scanWork_start {counters : DatasetCounters} (hstop : counters.stopRequested = false)
    (groups : List RootFileTaskGroup) :
    ScanWork env (counters, { upcomingGroups := groups })
      (taskEvents env none {} (groupTasks env groups)) :=
  .between hstop rfl rfl ⟨rfl, rfl, rfl, fun _ => rfl, fun _ => rfl⟩

/-- The calls of a worker deliver the outcome of its work. -/
theorem delivers_taskEvents (hroom : 0 < env.standardVectorSize)
    (hlimit : env.global.rowLimit = uint64Max) {counters : DatasetCounters}
    (hstop : counters.stopRequested = false) (groups : List RootFileTaskGroup) :
    Delivers env counters groups
      ((outcome (taskEvents env none {} (groupTasks env groups))).mapError Stop.failed) :=
  ⟨_, fun _ _ hfuel hcalls =>
    (scanIteration_traces hlimit).drain_eq hroom (scanWork_start hstop groups) hfuel hcalls⟩

/-- A worker delivers one result only. -/
theorem Delivers.unique {counters : DatasetCounters} {groups : List RootFileTaskGroup}
    {first second : Except (Stop IOException) (List (List OutputCell))}
    (hfirst : Delivers env counters groups first) (hsecond : Delivers env counters groups second) :
    first = second := by
  obtain ⟨b₁, h₁⟩ := hfirst
  obtain ⟨b₂, h₂⟩ := hsecond
  rw [← h₁ (b₁ + b₂ + 1) (b₁ + b₂ + 1) (by omega) (by omega),
    ← h₂ (b₁ + b₂ + 1) (b₁ + b₂ + 1) (by omega) (by omega)]

/-- **The scan is exactly-once** precisely when the double transport is used, or reading the
    claimed tasks raises an error, or every handover to a further task is clean. -/
theorem scan_delivers_expectedRows_iff (env : ScanEnvironment Filter)
    (counters : DatasetCounters) (groups : List RootFileTaskGroup)
    (hroom : 0 < env.standardVectorSize) (hlimit : env.global.rowLimit = uint64Max)
    (hstop : counters.stopRequested = false) :
    Delivers env counters groups
        ((expectedRows env none (groupTasks env groups)).mapError Stop.failed) ↔
      env.typedTransport = false ∨
        (∃ e, expectedRows env none (groupTasks env groups) = .error e) ∨
        CleanHandovers env {} (groupTasks env groups) := by
  have hactual := delivers_taskEvents hroom hlimit hstop groups
  have hcompared := @taskEvents_compared _ env (groupTasks env groups) none {}
  constructor
  · intro howed
    have hsame := howed.unique hactual
    by_cases hdouble : env.typedTransport = false
    · exact .inl hdouble
    have htyped : env.typedTransport = true := by simpa using hdouble
    right
    generalize expectedRows env none (groupTasks env groups) = owed at hcompared hsame ⊢
    generalize outcome (taskEvents env none {} (groupTasks env groups)) = delivered
      at hcompared hsame
    cases hcompared with
    | failed e => exact .inl ⟨e, rfl⟩
    | rows hlength hequal =>
      right
      have heq := congrArg List.length (Except.ok.inj hsame)
      exact (repeatedRows_eq_zero_iff htyped _ _).mp (by omega)
  · intro hcondition
    have hequal : expectedRows env none (groupTasks env groups) =
        outcome (taskEvents env none {} (groupTasks env groups)) := by
      cases hdelivered : outcome (taskEvents env none {} (groupTasks env groups)) with
      | error e =>
        rw [hdelivered] at hcompared
        generalize expectedRows env none (groupTasks env groups) = owed at hcompared ⊢
        cases hcompared
        rfl
      | ok delivered =>
        rw [hdelivered] at hcompared
        have hclean : repeatedRows env {} (groupTasks env groups) = 0 := by
          rcases hcondition with hdouble | ⟨e, herror⟩ | hclean
          · exact repeatedRows_double hdouble _ _
          · rw [herror] at hcompared
            cases hcompared
          · cases htyped : env.typedTransport with
            | false => exact repeatedRows_double htyped _ _
            | true => exact (repeatedRows_eq_zero_iff htyped _ _).mpr hclean
        generalize expectedRows env none (groupTasks env groups) = owed at hcompared ⊢
        cases hcompared with
        | rows hlength heq => rw [heq hclean]
    rw [hequal]
    exact hactual

end

/-! ### A stale page -/

/-- Two tasks of one file; the first entry holds one value, the second none, and the whole
    entry is handed over at once. -/
def handoverEnvironment (valueType : LogicalTypeId) : ScanEnvironment Unit where
  bind := { valueType := valueType }
  global :=
    { tasks :=
        [{ (default : RootBasketTask) with fileId := "f", rootUri := "f.root", entryEnd := 1 },
          { (default : RootBasketTask) with
            fileId := "f", rootUri := "f.root", entryBegin := 1, entryEnd := 2 }] }
  outputColumnIds := [.rowId, .column 1, .column 2]
  standardVectorSize := 2048
  evaluate := fun _ _ => true
  openRootFile := fun _ => .ok ()
  numericEntry := fun _ entry =>
    .ok (.serializedValues
      (if entry = 0 then [{ value := .signed 7, indices := [], complete := List.length_nil }]
      else []))
  predicateValues := fun _ _ _ => none

/-- The group of both tasks. -/
def handoverGroup : RootFileTaskGroup where
  first := 0
  last := 2
  cacheBytes := 0
  nonempty := Nat.two_pos

/-- The single value of a BIGINT column is delivered twice. -/
theorem scan_repeats_typed_page :
    ¬ Delivers (handoverEnvironment .bigint) {} [handoverGroup]
        ((expectedRows (handoverEnvironment .bigint) none
          (groupTasks (handoverEnvironment .bigint) [handoverGroup])).mapError Stop.failed) := by
  intro howed
  have hroom : 0 < (handoverEnvironment .bigint).standardVectorSize := by decide
  have hactual := @delivers_taskEvents Unit (handoverEnvironment .bigint) hroom rfl {} rfl
    [handoverGroup]
  have hsame := howed.unique hactual
  have howedLength : (expectedRows (handoverEnvironment .bigint) none
      (groupTasks (handoverEnvironment .bigint) [handoverGroup])).toOption.map List.length =
      some 1 := by decide
  have hactualLength : (outcome (taskEvents (handoverEnvironment .bigint) none {}
      (groupTasks (handoverEnvironment .bigint) [handoverGroup]))).toOption.map List.length =
      some 2 := by decide
  generalize expectedRows _ _ _ = owed at hsame howedLength
  generalize outcome _ = delivered at hsame hactualLength
  cases owed with
  | error e => cases howedLength
  | ok rows =>
    cases delivered with
    | error e => cases hactualLength
    | ok rows' =>
      cases hsame
      rw [howedLength] at hactualLength
      cases hactualLength

/-- The same file read through the double transport. -/
theorem scan_delivers_double_page :
    Delivers (handoverEnvironment .integer) {} [handoverGroup]
      ((expectedRows (handoverEnvironment .integer) none
        (groupTasks (handoverEnvironment .integer) [handoverGroup])).mapError Stop.failed) :=
  (scan_delivers_expectedRows_iff (handoverEnvironment .integer) {} [handoverGroup] (by decide)
    rfl rfl).mpr (.inl rfl)

end RootLake.Dataset

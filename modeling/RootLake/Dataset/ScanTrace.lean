/-
  RootLake/Dataset/ScanTrace.lean
  ===============================
  **What a worker's scan delivers, event by event.**

  The remaining work of a worker is a list of events computed from the reader's
  answers: the values of the page that is buffered, the pages still open, the entries
  left in the task, and the tasks left after it.  Every round of the output loop
  performs a non-empty beginning of that list, so the batch rule applies.

  One part of the list is not what the scan is for.  Claiming a task clears the buffer
  of the double transport and rewinds the offset, but leaves the buffer of the typed
  transport as the previous task left it; whatever it holds is emitted again in front of
  the new task.  `taskPage` computes what it holds.
-/
import RootLake.Dataset.Scan

namespace RootLake.Dataset

open Ieee Batch

/-- Buffered values with the entry they were decoded from. -/
structure EntryPage (indexCount : Nat) where
  values : List (DecodedValue indexCount) := []
  eventFk : UInt64 := 0
  entryId : UInt64 := 0
  sourceId : String := ""

section

variable {Filter : Type} (env : ScanEnvironment Filter)

abbrev ScanEvent := Event (List OutputCell) IOException

/-! ## 1. The work of a worker -/

/-- The row of a decoded value. -/
def valueRow (page : EntryPage env.indexCount) (v : DecodedValue env.indexCount) : DatasetRow where
  eventFk := page.eventFk
  indices := v.indices
  value := if env.typedTransport then .primitive v.value else .double v.value.asDouble
  sourceId := page.sourceId
  entryId := page.entryId

def valuePasses (page : EntryPage env.indexCount) (v : DecodedValue env.indexCount) : Bool :=
  passesFilters env.evaluate env.bind env.elementFilters (valueRow env page v)

def valueEvent (page : EntryPage env.indexCount) (v : DecodedValue env.indexCount) : ScanEvent :=
  if valuePasses env page v then
    .row (emitProjectedRow env.bind env.outputColumnIds (valueRow env page v))
  else .idle

def pageEvents (page : EntryPage env.indexCount) : List ScanEvent :=
  page.values.map (valueEvent env page)

/-- The pages still open, read for the entry of `page`. -/
def openEvents (page : EntryPage env.indexCount) (reader : OpenPages env.indexCount) :
    List ScanEvent :=
  reader.pages.flatMap (fun values => pageEvents env { page with values := values }) ++
    match reader.after with
    | .failed e => [.fail e]
    | _ => []

/-- What the buffer holds when the open pages have been read. -/
def afterOpen (page : EntryPage env.indexCount) (reader : OpenPages env.indexCount) :
    EntryPage env.indexCount :=
  match reader.after with
  | .pending => { page with values := [] }
  | _ => { page with values := reader.pages.getLastD page.values }

/-- The empty page of an entry of a task. -/
def entryPage (task : RootBasketTask) (entry : UInt64) : EntryPage env.indexCount where
  values := []
  eventFk := task.eventBase + entry
  entryId := entry
  sourceId := task.fileId

/-- How the entry loop goes on with an entry when no page is unread. -/
abbrev entryAnswer (task : RootBasketTask) (entry : UInt64) :
    Except IOException (Option (NumericEntry env.indexCount)) :=
  beginEntry env false task entry

def entryEvents (task : RootBasketTask) (entry : UInt64) : List ScanEvent :=
  match entryAnswer env task entry with
  | .error e => [.fail e]
  | .ok none => []
  | .ok (some (.none _)) => []
  | .ok (some (.serializedValues values)) =>
      pageEvents env { entryPage env task entry with values := values }
  | .ok (some (.paged pages)) => openEvents env (entryPage env task entry) pages

/-- The buffered page after an entry. -/
def nextPage (task : RootBasketTask) (page : EntryPage env.indexCount) (entry : UInt64) :
    EntryPage env.indexCount :=
  match entryAnswer env task entry with
  | .error _ => page
  | .ok none => page
  | .ok (some (.none leftover)) => { page with values := leftover }
  | .ok (some (.serializedValues values)) => { entryPage env task entry with values := values }
  | .ok (some (.paged pages)) => afterOpen env (entryPage env task entry) pages

/-- The page that is visible when a task has been claimed: the double transport starts with
    an empty buffer. -/
def visiblePage (page : EntryPage env.indexCount) : EntryPage env.indexCount :=
  if env.typedTransport then page else { page with values := [] }

/-- The buffered page after a task. -/
def taskPage (page : EntryPage env.indexCount) (task : RootBasketTask) :
    EntryPage env.indexCount :=
  task.entries.foldl (nextPage env task) (visiblePage env page)

/-- The file context a task leaves open. -/
def taskFile (task : RootBasketTask) : Option (String × String) :=
  some (task.rootUri, task.schemaId)

/-- Opening the file of a task that is not open yet. -/
def ensureFile (openFile : Option (String × String)) (task : RootBasketTask) :
    Except IOException Unit :=
  if openFile = taskFile task then .ok () else env.openRootFile task

def openFileEvents (openFile : Option (String × String)) (task : RootBasketTask) :
    List ScanEvent :=
  match ensureFile env openFile task with
  | .error e => [.fail e]
  | .ok () => []

/-- The work of a list of claimed tasks: open the file, emit what is buffered, read the
    entries, and finish the task. -/
def taskEvents : Option (String × String) → EntryPage env.indexCount → List RootBasketTask →
    List ScanEvent
  | _, _, [] => []
  | openFile, page, task :: rest =>
      openFileEvents env openFile task ++ pageEvents env (visiblePage env page) ++
        task.entries.flatMap (entryEvents env task) ++ [.idle] ++
        taskEvents (taskFile task) (taskPage env page task) rest

/-- The tasks a worker still claims, clipped. -/
def claimedTasks (l : DatasetLocalState env.indexCount) : List RootBasketTask :=
  (remainingTasks env l).filterMap fun task => (clipTask env.global task).1

/-! ## 2. The state and its work -/

/-- The ids of the buffers are those of the page, and in the typed transport so are the
    values: this much of the buffers survives the end of a task. -/
structure Residue (l : DatasetLocalState env.indexCount) (page : EntryPage env.indexCount) :
    Prop where
  eventFk : l.valueEventFk = page.eventFk
  entryId : l.valueEntryId = page.entryId
  sourceId : l.valueSourceId = page.sourceId
  typedValues : env.typedTransport = true → l.typedValues = page.values.map (·.value)
  typedIndices : env.typedTransport = true → l.flatIndices = page.values.flatMap (·.indices)

/-- The buffers of the transport in use hold the page. -/
structure Buffered (l : DatasetLocalState env.indexCount) (page : EntryPage env.indexCount) :
    Prop extends Residue env l page where
  values : env.typedTransport = false → l.values = page.values.map (·.value.asDouble)
  indices : page.values ≠ [] → l.flatIndices = page.values.flatMap (·.indices)

/-- The entries left in the current task. -/
def entriesLeft (l : DatasetLocalState env.indexCount) : List UInt64 :=
  (List.range' l.currentEntry.toNat (l.currentTask.entryEnd.toNat - l.currentEntry.toNat)).map
    UInt64.ofNat

/-- What is left of the current task once the buffered page has been emitted. -/
def restEvents (l : DatasetLocalState env.indexCount) : List ScanEvent :=
  (entriesLeft env l).flatMap (entryEvents env l.currentTask)

/-- The page the current task leaves, starting from `page`. -/
def restPage (l : DatasetLocalState env.indexCount) (page : EntryPage env.indexCount) :
    EntryPage env.indexCount :=
  (entriesLeft env l).foldl (nextPage env l.currentTask) page

/-- The work inside a task behind the buffered page: open pages, then entries. -/
def behindPage (l : DatasetLocalState env.indexCount) (page : EntryPage env.indexCount) :
    List ScanEvent :=
  openEvents env page l.reader ++ restEvents env l

/-- The page a task leaves when `page` is buffered. -/
def leftPage (l : DatasetLocalState env.indexCount) (page : EntryPage env.indexCount) :
    EntryPage env.indexCount :=
  restPage env l (afterOpen env page l.reader)

/-- The work of a state inside a task: the part of the buffered page behind the offset, the
    rest of the task, its end, and the tasks left. -/
def insideEvents (l : DatasetLocalState env.indexCount) (page : EntryPage env.indexCount) :
    List ScanEvent :=
  (pageEvents env page).drop l.valueOffset ++
    (behindPage env l page ++ [.idle] ++
      taskEvents env l.openFile (leftPage env l page) (claimedTasks env l))

/-- **The work of a state**, between two tasks and inside one. -/
inductive ScanWork : ScanState env → List ScanEvent → Prop where
  | between {counters : DatasetCounters} {l : DatasetLocalState env.indexCount}
      {page : EntryPage env.indexCount} :
      counters.stopRequested = false → l.hasTask = false → l.reader.hasNumericPage = false →
      Residue env l page →
      ScanWork (counters, l) (taskEvents env l.openFile page (claimedTasks env l))
  | inside {counters : DatasetCounters} {l : DatasetLocalState env.indexCount}
      {page : EntryPage env.indexCount} :
      counters.stopRequested = false → l.hasTask = true → Buffered env l page →
      l.openFile = taskFile l.currentTask →
      ScanWork (counters, l) (insideEvents env l page)

/-! ## 3. The page loop and the entry loop -/

/-- The part of the state that loading values leaves alone. -/
structure SameTask (l l' : DatasetLocalState env.indexCount) : Prop where
  currentTask : l'.currentTask = l.currentTask
  hasTask : l'.hasTask = l.hasTask
  openFile : l'.openFile = l.openFile
  cursor : l'.cursor = l.cursor
  upcomingGroups : l'.upcomingGroups = l.upcomingGroups

variable {env}

theorem SameTask.trans {l l' l'' : DatasetLocalState env.indexCount}
    (h : SameTask env l l') (h' : SameTask env l' l'') : SameTask env l l'' where
  currentTask := h'.currentTask.trans h.currentTask
  hasTask := h'.hasTask.trans h.hasTask
  openFile := h'.openFile.trans h.openFile
  cursor := h'.cursor.trans h.cursor
  upcomingGroups := h'.upcomingGroups.trans h.upcomingGroups

theorem claimedTasks_congr {l l' : DatasetLocalState env.indexCount} (h : SameTask env l l') :
    claimedTasks env l' = claimedTasks env l := by
  unfold claimedTasks remainingTasks
  rw [h.cursor, h.upcomingGroups]

theorem storeValues_sameTask (env : ScanEnvironment Filter) (l : DatasetLocalState env.indexCount)
    (values : List (DecodedValue env.indexCount)) : SameTask env l (storeValues env l values) := by
  unfold storeValues
  split
  · exact ⟨rfl, rfl, rfl, rfl, rfl⟩
  · exact ⟨rfl, rfl, rfl, rfl, rfl⟩

@[simp] theorem storeValues_currentEntry (l : DatasetLocalState env.indexCount)
    (values : List (DecodedValue env.indexCount)) :
    (storeValues env l values).currentEntry = l.currentEntry := by
  unfold storeValues
  split <;> rfl

@[simp] theorem storeValues_reader (l : DatasetLocalState env.indexCount)
    (values : List (DecodedValue env.indexCount)) :
    (storeValues env l values).reader = l.reader := by
  unfold storeValues
  split <;> rfl

@[simp] theorem storeValues_valueOffset (l : DatasetLocalState env.indexCount)
    (values : List (DecodedValue env.indexCount)) :
    (storeValues env l values).valueOffset = 0 := by
  unfold storeValues
  split <;> rfl

/-- Stored values are buffered for the entry whose ids the state carries. -/
theorem storeValues_buffered (env : ScanEnvironment Filter)
    {l : DatasetLocalState env.indexCount} {page : EntryPage env.indexCount}
    (heventFk : l.valueEventFk = page.eventFk) (hentryId : l.valueEntryId = page.entryId)
    (hsourceId : l.valueSourceId = page.sourceId) (values : List (DecodedValue env.indexCount)) :
    Buffered env (storeValues env l values) { page with values := values } := by
  unfold storeValues
  split
  next htyped =>
    refine ⟨⟨heventFk, hentryId, hsourceId, fun _ => rfl, fun _ => rfl⟩, ?_, fun _ => rfl⟩
    intro hdouble
    rw [htyped] at hdouble
    cases hdouble
  next hdouble =>
    refine ⟨⟨heventFk, hentryId, hsourceId, ?_, fun _ => rfl⟩, fun _ => rfl, fun _ => rfl⟩
    intro htyped
    exact absurd htyped hdouble

theorem OpenPages.hasNumericPage_eq_false {n : Nat} {reader : OpenPages n}
    (h : reader.hasNumericPage = false) : reader.pages = [] ∧ reader.after = .closed := by
  simp only [OpenPages.hasNumericPage, Bool.or_eq_false_iff, Bool.not_eq_false',
    bne_eq_false_iff_eq] at h
  exact ⟨List.isEmpty_iff.mp h.1, h.2⟩

theorem openEvents_of_closed (page : EntryPage env.indexCount)
    {reader : OpenPages env.indexCount} (h : reader.hasNumericPage = false) :
    openEvents env page reader = [] := by
  obtain ⟨hpages, hafter⟩ := OpenPages.hasNumericPage_eq_false h
  simp [openEvents, hpages, hafter]

theorem afterOpen_of_closed (page : EntryPage env.indexCount)
    {reader : OpenPages env.indexCount} (h : reader.hasNumericPage = false) :
    afterOpen env page reader = page := by
  obtain ⟨hpages, hafter⟩ := OpenPages.hasNumericPage_eq_false h
  simp [afterOpen, hpages, hafter]

/-- What reading one page of an open entry does. -/
inductive PageRead (l : DatasetLocalState env.indexCount) (page : EntryPage env.indexCount) :
    Except IOException (Bool × DatasetLocalState env.indexCount) → Prop where
  | failed {e : IOException} :
      openEvents env page l.reader = [.fail e] → PageRead l page (.error e)
  | loaded {l' : DatasetLocalState env.indexCount} {page' : EntryPage env.indexCount} :
      page'.values ≠ [] → Buffered env l' page' → l'.valueOffset = 0 → SameTask env l l' →
      l'.currentEntry = l.currentEntry →
      openEvents env page l.reader = pageEvents env page' ++ openEvents env page' l'.reader →
      afterOpen env page l.reader = afterOpen env page' l'.reader →
      PageRead l page (.ok (true, l'))
  | finished {l' : DatasetLocalState env.indexCount} :
      Residue env l' { page with values := [] } → l'.reader.hasNumericPage = false →
      SameTask env l l' → l'.currentEntry = l.currentEntry →
      openEvents env page l.reader = [] →
      afterOpen env page l.reader = { page with values := [] } →
      PageRead l page (.ok (false, l'))

/-- **The page loop.**  It is entered for an announced page, or right after an entry was
    opened with an empty buffer. -/
theorem consumePage_read (env : ScanEnvironment Filter) {l : DatasetLocalState env.indexCount} {page : EntryPage env.indexCount}
    (hres : Residue env l page)
    (hopen : l.reader.hasNumericPage = true ∨ page.values = []) :
    PageRead l page (consumePage env l) := by
  unfold consumePage
  split
  next values rest hpages =>
    have hne : values ≠ [] := l.reader.nonempty values (hpages ▸ List.mem_cons_self)
    have hfalse : (!values.isEmpty) = true := by
      cases values with
      | nil => exact absurd rfl hne
      | cons v vs => rfl
    rw [hfalse]
    refine @PageRead.loaded _ env l page _ { page with values := values } hne
      (storeValues_buffered env (by exact hres.eventFk) (by exact hres.entryId)
        (by exact hres.sourceId) values) (by simp) ?_ (by simp) ?_ ?_
    · exact ⟨(storeValues_sameTask env _ values).currentTask,
        (storeValues_sameTask env _ values).hasTask, (storeValues_sameTask env _ values).openFile,
        (storeValues_sameTask env _ values).cursor, (storeValues_sameTask env _ values).upcomingGroups⟩
    · simp only [openEvents, hpages, storeValues_reader, List.flatMap_cons, List.append_assoc]
    · simp only [afterOpen, hpages, storeValues_reader]
      cases l.reader.after with
      | pending => rfl
      | closed => cases rest <;> rfl
      | failed e => cases rest <;> rfl
  next hpages =>
    have hcleared : ∀ l' : DatasetLocalState env.indexCount,
        l' = { l with values := [], typedValues := [], flatIndices := [],
                      reader := OpenPages.none env.indexCount } →
        Residue env l' { page with values := [] } := by
      rintro l' rfl
      exact ⟨hres.eventFk, hres.entryId, hres.sourceId, fun _ => rfl, fun _ => rfl⟩
    split
    next e hafter =>
      exact .failed (by simp [openEvents, hpages, hafter])
    next hafter =>
      refine .finished (hcleared _ rfl) rfl ⟨rfl, rfl, rfl, rfl, rfl⟩ rfl ?_ ?_
      · cases hend : l.reader.after with
        | failed e => exact absurd hend (hafter e)
        | closed => simp [openEvents, hpages, hend]
        | pending => simp [openEvents, hpages, hend]
      · cases hend : l.reader.after with
        | failed e => exact absurd hend (hafter e)
        | pending => simp [afterOpen, hend]
        | closed =>
          rcases hopen with hhas | hempty
          · simp [OpenPages.hasNumericPage, hpages, hend] at hhas
          · simp [afterOpen, hend, hpages, hempty]

/-! ### The entry loop -/

theorem entriesLeft_succ {l : DatasetLocalState env.indexCount} {steps : Nat}
    (h : steps + 1 = l.currentTask.entryEnd.toNat - l.currentEntry.toNat) :
    entriesLeft env l =
        l.currentEntry :: entriesLeft env { l with currentEntry := l.currentEntry + 1 } ∧
      steps = l.currentTask.entryEnd.toNat - (l.currentEntry + 1).toNat := by
  have hend : l.currentTask.entryEnd.toNat < 2 ^ 64 := l.currentTask.entryEnd.toNat_lt
  have hone : (1 : UInt64).toNat = 1 := rfl
  have hnext : (l.currentEntry + 1).toNat = l.currentEntry.toNat + 1 := by
    rw [toNat_add_of_lt (by omega), hone]
  refine ⟨?_, by omega⟩
  unfold entriesLeft
  simp only [hnext]
  rw [← h, List.range'_succ, List.map_cons, UInt64.ofNat_toNat]
  have hsteps : l.currentTask.entryEnd.toNat - (l.currentEntry.toNat + 1) = steps := by omega
  rw [hsteps]

theorem entriesLeft_zero {l : DatasetLocalState env.indexCount}
    (h : 0 = l.currentTask.entryEnd.toNat - l.currentEntry.toNat) : entriesLeft env l = [] := by
  unfold entriesLeft
  rw [← h]
  rfl

/-- What one round of the entry loop does. -/
inductive EntryRead (l : DatasetLocalState env.indexCount) (page : EntryPage env.indexCount) :
    Except IOException (Bool × DatasetLocalState env.indexCount) → Prop where
  | failed {e : IOException} :
      outcome (entryEvents env l.currentTask l.currentEntry) = .error e →
      EntryRead l page (.error e)
  | loaded {l' : DatasetLocalState env.indexCount} {page' : EntryPage env.indexCount} :
      page'.values ≠ [] → Buffered env l' page' → l'.valueOffset = 0 → SameTask env l l' →
      l'.currentEntry = l.currentEntry + 1 →
      entryEvents env l.currentTask l.currentEntry =
        pageEvents env page' ++ openEvents env page' l'.reader →
      nextPage env l.currentTask page l.currentEntry = afterOpen env page' l'.reader →
      EntryRead l page (.ok (true, l'))
  | skipped {l' : DatasetLocalState env.indexCount} :
      Residue env l' (nextPage env l.currentTask page l.currentEntry) →
      l'.reader.hasNumericPage = false → SameTask env l l' →
      l'.currentEntry = l.currentEntry + 1 →
      entryEvents env l.currentTask l.currentEntry = [] →
      EntryRead l page (.ok (false, l'))

/-- **One entry.**  The cases are the answers of the reader. -/
theorem entryStep_read {l : DatasetLocalState env.indexCount} {page : EntryPage env.indexCount}
    (hclosed : l.reader.hasNumericPage = false) (hres : Residue env l page) :
    EntryRead l page (entryStep env l) := by
  unfold entryStep
  simp only [hclosed]
  cases hanswer : beginEntry env false l.currentTask l.currentEntry with
  | error e =>
    refine .failed ?_
    simp only [entryEvents, entryAnswer, hanswer, outcome_fail]
  | ok answer =>
    cases answer with
    | none =>
      refine .skipped ?_ hclosed ⟨rfl, rfl, rfl, rfl, rfl⟩ rfl ?_
      · simp only [nextPage, entryAnswer, hanswer]
        exact ⟨hres.1, hres.2, hres.3, hres.4, hres.5⟩
      · simp only [entryEvents, entryAnswer, hanswer]
    | some answer =>
      cases answer with
      | none leftover =>
        refine .skipped ?_ hclosed ⟨rfl, rfl, rfl, rfl, rfl⟩ rfl ?_
        · simp only [nextPage, entryAnswer, hanswer]
          exact ⟨hres.1, hres.2, hres.3, fun _ => rfl, fun _ => rfl⟩
        · simp only [entryEvents, entryAnswer, hanswer]
      | serializedValues values =>
        have hbuf : Buffered env
            (storeValues env
              { l with
                currentEntry := l.currentEntry + 1
                valueEventFk := l.currentTask.eventBase + l.currentEntry
                valueEntryId := l.currentEntry
                valueSourceId := l.currentTask.fileId } values)
            { entryPage env l.currentTask l.currentEntry with values := values } :=
          storeValues_buffered env rfl rfl rfl values
        have hsame := storeValues_sameTask env
          { l with
            currentEntry := l.currentEntry + 1
            valueEventFk := l.currentTask.eventBase + l.currentEntry
            valueEntryId := l.currentEntry
            valueSourceId := l.currentTask.fileId } values
        have hsame' := SameTask.mk hsame.currentTask hsame.hasTask hsame.openFile hsame.cursor
          hsame.upcomingGroups (l := l)
        cases values with
        | nil =>
          refine .skipped ?_ (by simpa using hclosed) hsame' (by simp) ?_
          · simp only [nextPage, entryAnswer, hanswer]
            exact hbuf.toResidue
          · simp only [entryEvents, entryAnswer, hanswer, pageEvents, List.map_nil]
        | cons v vs =>
          refine .loaded (List.cons_ne_nil v vs) hbuf (by simp) hsame' (by simp) ?_ ?_
          · simp only [entryEvents, entryAnswer, hanswer, storeValues_reader]
            rw [openEvents_of_closed _ hclosed, List.append_nil]
          · simp only [nextPage, entryAnswer, hanswer, storeValues_reader]
            rw [afterOpen_of_closed _ hclosed]
      | paged pages =>
        have hread := consumePage_read env
          (l := { l with
            currentEntry := l.currentEntry + 1
            valueEventFk := l.currentTask.eventBase + l.currentEntry
            valueEntryId := l.currentEntry
            valueSourceId := l.currentTask.fileId
            values := []
            typedValues := []
            flatIndices := []
            valueOffset := 0
            reader := pages })
          (show Residue env _ (entryPage env l.currentTask l.currentEntry) from
            ⟨rfl, rfl, rfl, fun _ => rfl, fun _ => rfl⟩) (.inr rfl)
        have hev : entryEvents env l.currentTask l.currentEntry =
            openEvents env (entryPage env l.currentTask l.currentEntry) pages := by
          simp only [entryEvents, entryAnswer, hanswer]
        have hpg : nextPage env l.currentTask page l.currentEntry =
            afterOpen env (entryPage env l.currentTask l.currentEntry) pages := by
          simp only [nextPage, entryAnswer, hanswer]
        dsimp only
        generalize consumePage env _ = read at hread ⊢
        cases hread with
        | failed hfail =>
          refine .failed ?_
          rw [hev, hfail]
          rfl
        | loaded hne hbuf hoff hsame hentry hopen hafter =>
          exact .loaded hne hbuf hoff
            ⟨hsame.currentTask, hsame.hasTask, hsame.openFile, hsame.cursor, hsame.upcomingGroups⟩
            hentry (hev.trans hopen) (hpg.trans hafter)
        | finished hres' hclosed' hsame hentry hopen hafter =>
          refine .skipped ?_ hclosed'
            ⟨hsame.currentTask, hsame.hasTask, hsame.openFile, hsame.cursor, hsame.upcomingGroups⟩
            hentry (hev.trans hopen)
          rw [hpg, hafter]
          exact hres'

/-- What the entry loop does. -/
inductive EntriesRead (l : DatasetLocalState env.indexCount) (page : EntryPage env.indexCount) :
    Except IOException (Bool × DatasetLocalState env.indexCount) → Prop where
  | failed {e : IOException} :
      outcome (restEvents env l) = .error e → EntriesRead l page (.error e)
  | loaded {l' : DatasetLocalState env.indexCount} {page' : EntryPage env.indexCount} :
      page'.values ≠ [] → Buffered env l' page' → l'.valueOffset = 0 → SameTask env l l' →
      restEvents env l =
        pageEvents env page' ++ openEvents env page' l'.reader ++ restEvents env l' →
      restPage env l page = restPage env l' (afterOpen env page' l'.reader) →
      EntriesRead l page (.ok (true, l'))
  | finished {l' : DatasetLocalState env.indexCount} :
      Residue env l' (restPage env l page) → l'.reader.hasNumericPage = false →
      SameTask env l l' → restEvents env l = [] →
      EntriesRead l page (.ok (false, l'))

/-- The events and the page left, one entry further. -/
theorem rest_succ {l l' : DatasetLocalState env.indexCount} {steps : Nat}
    (h : steps + 1 = l.currentTask.entryEnd.toNat - l.currentEntry.toNat)
    (hsame : SameTask env l l') (hentry : l'.currentEntry = l.currentEntry + 1) :
    steps = l'.currentTask.entryEnd.toNat - l'.currentEntry.toNat ∧
      restEvents env l =
        entryEvents env l.currentTask l.currentEntry ++ restEvents env l' ∧
      ∀ page, restPage env l page =
        restPage env l' (nextPage env l.currentTask page l.currentEntry) := by
  obtain ⟨hleft, hsteps⟩ := entriesLeft_succ h
  have hleft' : entriesLeft env { l with currentEntry := l.currentEntry + 1 } =
      entriesLeft env l' := by
    unfold entriesLeft
    rw [hsame.currentTask, hentry]
  rw [hleft'] at hleft
  refine ⟨?_, ?_, ?_⟩
  · rw [hsame.currentTask, hentry]
    exact hsteps
  · unfold restEvents
    rw [hleft, List.flatMap_cons, hsame.currentTask]
  · intro page
    unfold restPage
    rw [hleft, List.foldl_cons, hsame.currentTask]

/-- **The entry loop.**  It runs with no page unread and stops at the first entry with
    values. -/
theorem entryLoop_read :
    ∀ {steps : Nat} {l : DatasetLocalState env.indexCount} {page : EntryPage env.indexCount},
      steps = l.currentTask.entryEnd.toNat - l.currentEntry.toNat →
      l.reader.hasNumericPage = false → Residue env l page →
      EntriesRead l page (repeatUntil (entryStep env) steps l) := by
  intro steps
  induction steps with
  | zero =>
    intro l page hsteps hclosed hres
    have hleft := entriesLeft_zero (l := l) hsteps
    have hpage : restPage env l page = page := by rw [restPage, hleft, List.foldl_nil]
    have hevents : restEvents env l = [] := by rw [restEvents, hleft, List.flatMap_nil]
    rw [repeatUntil]
    refine .finished ?_ hclosed ⟨rfl, rfl, rfl, rfl, rfl⟩ hevents
    rw [hpage]
    exact hres
  | succ steps ih =>
    intro l page hsteps hclosed hres
    have hread := entryStep_read hclosed hres
    rw [repeatUntil]
    generalize entryStep env l = read at hread ⊢
    cases hread with
    | failed hfail =>
      have hsame : SameTask env l { l with currentEntry := l.currentEntry + 1 } :=
        ⟨rfl, rfl, rfl, rfl, rfl⟩
      have hsucc := rest_succ hsteps hsame rfl
      refine .failed ?_
      rw [hsucc.2.1]
      exact outcome_append_error hfail
    | loaded hne hbuf hoff hsame hentry hev hpg =>
      obtain ⟨-, hrest, hrestPage⟩ := rest_succ hsteps hsame hentry
      refine .loaded hne hbuf hoff hsame ?_ ?_
      · rw [hrest, hev]
      · rw [hrestPage, hpg]
    | skipped hres' hclosed' hsame hentry hev =>
      obtain ⟨hsteps', hrest, hrestPage⟩ := rest_succ hsteps hsame hentry
      rw [hev, List.nil_append] at hrest
      have hloop := ih hsteps' hclosed' hres'
      dsimp only
      generalize repeatUntil (entryStep env) steps _ = result at hloop ⊢
      cases hloop with
      | failed hfail =>
        refine .failed ?_
        rw [hrest]
        exact hfail
      | loaded hne hbuf hoff hsame' hev' hpg' =>
        exact .loaded hne hbuf hoff (hsame.trans hsame') (hrest.trans hev')
          ((hrestPage page).trans hpg')
      | finished hres'' hclosed'' hsame' hev' =>
        refine .finished ?_ hclosed'' (hsame.trans hsame') (hrest.trans hev')
        rw [hrestPage page]
        exact hres''

/-- What loading the next values does. -/
inductive ValuesLoaded (l : DatasetLocalState env.indexCount) (page : EntryPage env.indexCount) :
    Except IOException (Bool × DatasetLocalState env.indexCount) → Prop where
  | failed {e : IOException} :
      outcome (behindPage env l page) = .error e → ValuesLoaded l page (.error e)
  | loaded {l' : DatasetLocalState env.indexCount} {page' : EntryPage env.indexCount} :
      page'.values ≠ [] → Buffered env l' page' → l'.valueOffset = 0 → SameTask env l l' →
      behindPage env l page = pageEvents env page' ++ behindPage env l' page' →
      leftPage env l page = leftPage env l' page' →
      ValuesLoaded l page (.ok (true, l'))
  | finished {l' : DatasetLocalState env.indexCount} :
      Residue env l' (leftPage env l page) → l'.reader.hasNumericPage = false →
      SameTask env l l' → behindPage env l page = [] →
      ValuesLoaded l page (.ok (false, l'))

/-- The entry loop from a state without an open page, seen from `LoadNextEntry`. -/
theorem EntriesRead.valuesLoaded {l l₁ : DatasetLocalState env.indexCount}
    {page page₁ : EntryPage env.indexCount}
    {result : Except IOException (Bool × DatasetLocalState env.indexCount)}
    (hsame : SameTask env l l₁) (hevents : behindPage env l page = restEvents env l₁)
    (hpage : leftPage env l page = restPage env l₁ page₁)
    (h : EntriesRead l₁ page₁ result) : ValuesLoaded l page result := by
  cases h with
  | failed hfail =>
    refine .failed ?_
    rw [hevents]
    exact hfail
  | loaded hne hbuf hoff hsame' hev hpg =>
    refine .loaded hne hbuf hoff (hsame.trans hsame') ?_ (hpage.trans hpg)
    rw [hevents, hev, behindPage, List.append_assoc]
  | finished hres hclosed hsame' hev =>
    refine .finished ?_ hclosed (hsame.trans hsame') (hevents.trans hev)
    rw [hpage]
    exact hres

/-- Loading inside the same entry does not move the entries left. -/
theorem rest_congr {l l' : DatasetLocalState env.indexCount} (hsame : SameTask env l l')
    (hentry : l'.currentEntry = l.currentEntry) :
    restEvents env l' = restEvents env l ∧ ∀ page, restPage env l' page = restPage env l page := by
  have hleft : entriesLeft env l' = entriesLeft env l := by
    unfold entriesLeft
    rw [hsame.currentTask, hentry]
  refine ⟨?_, ?_⟩
  · unfold restEvents
    rw [hleft, hsame.currentTask]
  · intro page
    unfold restPage
    rw [hleft, hsame.currentTask]

/-- **Loading the next values.**  The page loop comes first, then the entry loop. -/
theorem loadNextEntry_loaded {l : DatasetLocalState env.indexCount}
    {page : EntryPage env.indexCount} (hres : Residue env l page) :
    ValuesLoaded l page (loadNextEntry env l) := by
  unfold loadNextEntry
  by_cases hopen : l.reader.hasNumericPage = true
  · simp only [hopen, if_true]
    have hread := consumePage_read env hres (.inl hopen)
    generalize consumePage env l = read at hread ⊢
    cases hread with
    | failed hfail =>
      refine .failed (outcome_append_error ?_)
      rw [hfail]
      rfl
    | loaded hne hbuf hoff hsame hentry hev hpg =>
      obtain ⟨hrest, hrestPage⟩ := rest_congr hsame hentry
      refine .loaded hne hbuf hoff hsame ?_ ?_
      · rw [behindPage, behindPage, hev, hrest, List.append_assoc]
      · rw [leftPage, leftPage, hpg, hrestPage]
    | finished hres' hclosed hsame hentry hev hpg =>
      obtain ⟨hrest, hrestPage⟩ := rest_congr hsame hentry
      refine (entryLoop_read rfl hclosed hres').valuesLoaded hsame ?_ ?_
      · rw [behindPage, hev, List.nil_append, hrest]
      · rw [leftPage, hpg, hrestPage]
  · have hclosed : l.reader.hasNumericPage = false := by simpa using hopen
    simp only [hclosed, Bool.false_eq_true, if_false]
    refine (entryLoop_read rfl hclosed hres).valuesLoaded ⟨rfl, rfl, rfl, rfl, rfl⟩ ?_ ?_
    · rw [behindPage, openEvents_of_closed _ hclosed, List.nil_append]
    · rw [leftPage, afterOpen_of_closed _ hclosed]

/-! ## 4. The output loop -/

/-- The index tuples of the buffered values lie one behind the other. -/
theorem take_drop_flatMap_indices {n : Nat} :
    ∀ {values : List (DecodedValue n)} {i : Nat} (h : i < values.length),
      ((values.flatMap (·.indices)).drop (i * n)).take n = (values[i]).indices := by
  intro values
  induction values with
  | nil => intro i h; exact absurd h (Nat.not_lt_zero i)
  | cons v vs ih =>
    intro i h
    cases i with
    | zero =>
      rw [Nat.zero_mul, List.drop_zero, List.flatMap_cons]
      exact List.take_left' v.complete
    | succ i =>
      have hi : i < vs.length := Nat.lt_of_succ_lt_succ h
      have hskip : (i + 1) * n = v.indices.length + i * n := by
        rw [v.complete, Nat.succ_mul, Nat.add_comm]
      rw [hskip, List.flatMap_cons, List.drop_length_add_append]
      exact ih hi

/-- The row read from the buffers is the row of the decoded value. -/
theorem Buffered.bufferedRow_eq {l : DatasetLocalState env.indexCount}
    {page : EntryPage env.indexCount} (hbuf : Buffered env l page) {i : Nat}
    (h : i < page.values.length) :
    bufferedRow env l i = valueRow env page page.values[i] := by
  have hne : page.values ≠ [] := by
    intro hnil
    rw [hnil] at h
    exact absurd h (Nat.not_lt_zero i)
  unfold bufferedRow valueRow
  rw [hbuf.indices hne, take_drop_flatMap_indices h, hbuf.eventFk, hbuf.entryId, hbuf.sourceId]
  cases htyped : env.typedTransport with
  | true =>
    simp only [if_true]
    rw [hbuf.typedValues htyped]
    simp [List.getD, h]
  | false =>
    simp only [Bool.false_eq_true, if_false]
    rw [hbuf.values htyped]
    simp [List.getD, h]

theorem Buffered.loadedValues_eq {l : DatasetLocalState env.indexCount}
    {page : EntryPage env.indexCount} (hbuf : Buffered env l page) :
    loadedValues env l = page.values.length := by
  unfold loadedValues
  cases htyped : env.typedTransport with
  | true => simp [hbuf.typedValues htyped]
  | false => simp [hbuf.values htyped]

theorem Buffered.setOffset {l : DatasetLocalState env.indexCount}
    {page : EntryPage env.indexCount} (hbuf : Buffered env l page) (offset : Nat) :
    Buffered env { l with valueOffset := offset } page :=
  ⟨⟨hbuf.eventFk, hbuf.entryId, hbuf.sourceId, hbuf.typedValues, hbuf.typedIndices⟩,
    hbuf.values, hbuf.indices⟩

/-- Without a row limit every requested row is granted. -/
theorem reserveOutputRows_unlimited {global : DatasetGlobalState} {counters : DatasetCounters}
    (hlimit : global.rowLimit = uint64Max) (hstop : counters.stopRequested = false) :
    ∃ counters', reserveOutputRows global counters 1 = (1, counters') ∧
      counters'.stopRequested = false := by
  unfold reserveOutputRows
  refine ⟨{ counters with emittedRows := counters.emittedRows + 1 }, ?_, hstop⟩
  rw [if_neg (by simp [hstop]), if_pos hlimit]

theorem pageEvents_quiet (page : EntryPage env.indexCount) : Quiet (pageEvents env page) := by
  intro e he
  obtain ⟨v, -, hv⟩ := List.mem_map.mp he
  unfold valueEvent at hv
  split at hv
  · cases hv
  · cases hv

theorem pageEvents_drop_cons (env : ScanEnvironment Filter) {page : EntryPage env.indexCount} {i : Nat}
    (h : i < page.values.length) :
    (pageEvents env page).drop i =
      valueEvent env page page.values[i] :: (pageEvents env page).drop (i + 1) := by
  have hlen : i < (pageEvents env page).length := by
    simpa [pageEvents] using h
  rw [List.drop_eq_getElem_cons hlen]
  simp [pageEvents]

/-- What emitting buffered values does: a beginning of the page's events is performed. -/
structure Emitted (page : EntryPage env.indexCount) (l : DatasetLocalState env.indexCount)
    (steps room : Nat)
    (result : List (List OutputCell) × DatasetCounters × DatasetLocalState env.indexCount × Bool)
    (count : Nat) : Prop where
  rows : result.1 = rowsOf (((pageEvents env page).drop l.valueOffset).take count)
  counters : result.2.1.stopRequested = false
  state : result.2.2.1 = { l with valueOffset := l.valueOffset + count }
  stopped : result.2.2.2 = false
  count_le : count ≤ steps
  fits : result.1.length ≤ room
  progress : 0 < steps → 0 < room → 0 < count

theorem emitValues_emitted (hlimit : env.global.rowLimit = uint64Max)
    {page : EntryPage env.indexCount} :
    ∀ {steps : Nat} (room : Nat) {counters : DatasetCounters}
      {l : DatasetLocalState env.indexCount},
      counters.stopRequested = false → Buffered env l page →
      steps = page.values.length - l.valueOffset →
      ∃ count, Emitted page l steps room (emitValues env steps room counters l) count := by
  intro steps
  induction steps with
  | zero =>
    intro room counters l hstop hbuf hsteps
    refine ⟨0, ?_⟩
    rw [emitValues]
    exact ⟨rfl, hstop, rfl, rfl, Nat.le_refl 0, Nat.zero_le _, fun h => absurd h (by omega)⟩
  | succ steps ih =>
    intro room counters l hstop hbuf hsteps
    have hlt : l.valueOffset < page.values.length := by omega
    have hrow := hbuf.bufferedRow_eq hlt
    have hdrop := pageEvents_drop_cons env hlt
    cases room with
    | zero =>
      refine ⟨0, ?_⟩
      rw [emitValues]
      exact ⟨rfl, hstop, rfl, rfl, Nat.zero_le _, Nat.le_refl 0, fun _ h => absurd h (by omega)⟩
    | succ room =>
      rw [emitValues]
      simp only [hrow]
      by_cases hpass : valuePasses env page page.values[l.valueOffset] = true
      · have hpass' : passesFilters env.evaluate env.bind env.elementFilters
            (valueRow env page page.values[l.valueOffset]) = true := hpass
        obtain ⟨counters', hreserve, hstop'⟩ := reserveOutputRows_unlimited hlimit hstop
        have hone : ¬ (1 : UInt64) = 0 := by decide
        simp only [hpass', Bool.not_true, Bool.false_eq_true, if_false, hreserve, hone]
        obtain ⟨count, hcount⟩ :=
          @ih room counters' _ hstop' (hbuf.setOffset (l.valueOffset + 1)) (by dsimp only; omega)
        refine ⟨count + 1, ?_, hcount.counters, ?_, hcount.stopped, Nat.succ_le_succ hcount.count_le,
          Nat.succ_le_succ hcount.fits, fun _ _ => Nat.succ_pos _⟩
        · rw [hdrop, List.take_succ_cons, valueEvent, if_pos hpass, rowsOf, hcount.rows]
        · rw [hcount.state]
          simp only [Nat.add_assoc, Nat.add_comm 1 count]
      · have hpass' : passesFilters env.evaluate env.bind env.elementFilters
            (valueRow env page page.values[l.valueOffset]) = false := by
          simpa [valuePasses] using hpass
        simp only [hpass', Bool.not_false, if_true]
        obtain ⟨count, hcount⟩ :=
          @ih (room + 1) counters _ hstop (hbuf.setOffset (l.valueOffset + 1))
            (by dsimp only; omega)
        refine ⟨count + 1, ?_, hcount.counters, ?_, hcount.stopped, Nat.succ_le_succ hcount.count_le,
          hcount.fits, fun _ _ => Nat.succ_pos _⟩
        · rw [hdrop, List.take_succ_cons, valueEvent, if_neg hpass, rowsOf, hcount.rows]
        · rw [hcount.state]
          simp only [Nat.add_assoc, Nat.add_comm 1 count]

/-! ### Claiming -/

theorem remainingTasks_drawGroup (l : DatasetLocalState env.indexCount) :
    (drawGroup l = none ∧ remainingTasks env l = []) ∨
      ∃ l', drawGroup l = some l' ∧
        remainingTasks env l =
          l'.cursor.task env.global :: remainingTasks env { l' with cursor := l'.cursor.advance } ∧
        l' = { l with cursor := l'.cursor, upcomingGroups := l'.upcomingGroups } := by
  unfold drawGroup
  by_cases hneeds : l.cursor.needsGroup
  · rw [if_pos hneeds]
    cases hgroups : l.upcomingGroups with
    | nil =>
      refine .inl ⟨rfl, ?_⟩
      unfold remainingTasks
      rw [TaskCursor.remaining_of_needsGroup _ hneeds, hgroups]
      rfl
    | cons group rest =>
      refine .inr ⟨_, rfl, ?_, rfl⟩
      unfold remainingTasks
      rw [TaskCursor.remaining_of_needsGroup _ hneeds, hgroups, List.flatMap_cons,
        TaskCursor.remaining_of_not_needsGroup _ (TaskCursor.enter_not_needsGroup group)]
      rfl
  · rw [if_neg hneeds]
    refine .inr ⟨l, rfl, ?_, rfl⟩
    unfold remainingTasks
    rw [TaskCursor.remaining_of_not_needsGroup _ hneeds]
    rfl

/-- What claiming a task does. -/
inductive TaskClaimed (l : DatasetLocalState env.indexCount) (page : EntryPage env.indexCount) :
    Except IOException (Bool × DatasetCounters × DatasetLocalState env.indexCount) → Prop where
  | failed {e : IOException} :
      outcome (taskEvents env l.openFile page (claimedTasks env l)) = .error e →
      TaskClaimed l page (.error e)
  | claimed {counters : DatasetCounters} {l' : DatasetLocalState env.indexCount} :
      counters.stopRequested = false → l'.hasTask = true → l'.valueOffset = 0 →
      Buffered env l' (visiblePage env page) → l'.reader.hasNumericPage = false →
      l'.openFile = taskFile l'.currentTask →
      taskEvents env l.openFile page (claimedTasks env l) =
        pageEvents env (visiblePage env page) ++ restEvents env l' ++ [.idle] ++
          taskEvents env l'.openFile (restPage env l' (visiblePage env page))
            (claimedTasks env l') →
      TaskClaimed l page (.ok (true, counters, l'))
  | exhausted {counters : DatasetCounters} {l' : DatasetLocalState env.indexCount} :
      counters.stopRequested = false → l'.hasTask = false →
      Residue env l' page → l'.reader.hasNumericPage = false →
      claimedTasks env l = [] → claimedTasks env l' = [] →
      TaskClaimed l page (.ok (false, counters, l'))

/-- Opening a file either fails as the work does or changes the file context only. -/
theorem openTaskFile_cases (l : DatasetLocalState env.indexCount) (task : RootBasketTask)
    (hclosed : l.reader.hasNumericPage = false) :
    (∃ e, openTaskFile env l task = .error e ∧ openFileEvents env l.openFile task = [.fail e]) ∨
      ∃ l', openTaskFile env l task = .ok l' ∧ openFileEvents env l.openFile task = [] ∧
        l' = { l with openFile := taskFile task, reader := l'.reader } ∧
        l'.reader.hasNumericPage = false := by
  unfold openTaskFile openFileEvents ensureFile taskFile
  by_cases hreuse : l.openFile = some (task.rootUri, task.schemaId)
  · rw [if_pos hreuse, if_pos hreuse]
    refine .inr ⟨l, rfl, rfl, ?_, hclosed⟩
    rw [← hreuse]
  · rw [if_neg hreuse, if_neg hreuse]
    cases env.openRootFile task with
    | error e => exact .inl ⟨e, rfl, rfl⟩
    | ok _ => exact .inr ⟨_, rfl, rfl, rfl, rfl⟩

/-- The double transport forgets the buffer when a task is claimed; the typed transport
    does not. -/
theorem Residue.visible {l l' : DatasetLocalState env.indexCount}
    {page : EntryPage env.indexCount} (hres : Residue env l page)
    (hids : l'.valueEventFk = l.valueEventFk ∧ l'.valueEntryId = l.valueEntryId ∧
      l'.valueSourceId = l.valueSourceId)
    (htypedValues : l'.typedValues = l.typedValues) (hindices : l'.flatIndices = l.flatIndices)
    (hvalues : l'.values = []) : Buffered env l' (visiblePage env page) := by
  unfold visiblePage
  cases htyped : env.typedTransport with
  | true =>
    simp only [if_true]
    refine ⟨⟨hids.1.trans hres.eventFk, hids.2.1.trans hres.entryId,
      hids.2.2.trans hres.sourceId, fun h => htypedValues.trans (hres.typedValues h),
      fun h => hindices.trans (hres.typedIndices h)⟩, ?_, fun _ => ?_⟩
    · intro h
      rw [htyped] at h
      cases h
    · exact hindices.trans (hres.typedIndices htyped)
  | false =>
    simp only [Bool.false_eq_true, if_false]
    refine ⟨⟨hids.1.trans hres.eventFk, hids.2.1.trans hres.entryId,
      hids.2.2.trans hres.sourceId, ?_, ?_⟩, fun _ => hvalues, fun h => absurd rfl h⟩
    · intro h
      rw [htyped] at h
      cases h
    · intro h
      rw [htyped] at h
      cases h

/-- **Claiming.**  The tasks that a clip empties are passed over; the first one that is left
    is opened. -/
theorem claimLoop_claimed {page : EntryPage env.indexCount} :
    ∀ {steps : Nat} {counters : DatasetCounters} {l : DatasetLocalState env.indexCount},
      (remainingTasks env l).length < steps → counters.stopRequested = false →
      l.hasTask = false → l.reader.hasNumericPage = false → Residue env l page →
      TaskClaimed l page (claimLoop env steps counters l) := by
  intro steps
  induction steps with
  | zero => intro counters l hsteps; exact absurd hsteps (Nat.not_lt_zero _)
  | succ steps ih =>
    intro counters l hsteps hstop hidle hclosed hres
    rw [claimLoop]
    rcases remainingTasks_drawGroup l with ⟨hdraw, hnil⟩ | ⟨l₁, hdraw, hcons, hl₁⟩
    · simp only [hdraw]
      have hclaimed : claimedTasks env l = [] := by rw [claimedTasks, hnil, List.filterMap_nil]
      exact .exhausted hstop hidle hres hclosed hclaimed hclaimed
    · simp only [hdraw]
      obtain ⟨l₂, hl₂⟩ : ∃ l₂, l₂ = { l₁ with cursor := l₁.cursor.advance } := ⟨_, rfl⟩
      rw [← hl₂] at hcons ⊢
      have hres₂ : Residue env l₂ page := by
        rw [hl₂, hl₁]
        exact ⟨hres.1, hres.2, hres.3, hres.4, hres.5⟩
      have hclosed₂ : l₂.reader.hasNumericPage = false := by
        rw [hl₂, hl₁]
        exact hclosed
      have hidle₂ : l₂.hasTask = false := by
        rw [hl₂, hl₁]
        exact hidle
      have hfile₂ : l₂.openFile = l.openFile := by
        rw [hl₂, hl₁]
      have hlen : (remainingTasks env l₂).length < steps := by
        rw [hcons, List.length_cons] at hsteps
        exact Nat.lt_of_succ_lt_succ hsteps
      cases hclip : clipTask env.global (l₁.cursor.task env.global) with
      | mk clipped skipped =>
        cases clipped with
        | none =>
          have hclaimed : claimedTasks env l = claimedTasks env l₂ := by
            unfold claimedTasks
            rw [hcons, List.filterMap_cons, hclip]
          have hrec := @ih { counters with skippedEntries := counters.skippedEntries + skipped }
            l₂ hlen hstop hidle₂ hclosed₂ hres₂
          dsimp only
          generalize claimLoop env steps _ l₂ = result at hrec ⊢
          cases hrec with
          | failed hfail =>
            refine .failed ?_
            rw [hclaimed, ← hfile₂]
            exact hfail
          | claimed hstop' hhas hoff hbuf hclosed' hfile hevents =>
            refine .claimed hstop' hhas hoff hbuf hclosed' hfile ?_
            rw [hclaimed, ← hfile₂]
            exact hevents
          | exhausted hstop' hidle' hres' hclosed' hnil hnil' =>
            exact .exhausted hstop' hidle' hres' hclosed' (hclaimed.trans hnil) hnil'
        | some task =>
          have hclaimed : claimedTasks env l = task :: claimedTasks env l₂ := by
            unfold claimedTasks
            rw [hcons, List.filterMap_cons, hclip]
          rcases openTaskFile_cases l₂ task hclosed₂ with ⟨e, hopen, hev⟩ | ⟨l₃, hopen, hev, hl₃, hclosed₃⟩
          · simp only [hopen]
            refine .failed ?_
            rw [hclaimed, taskEvents, ← hfile₂, hev]
            rfl
          · simp only [hopen]
            refine .claimed hstop rfl rfl ?_ hclosed₃ ?_ ?_
            · rw [hl₃]
              exact hres₂.visible ⟨rfl, rfl, rfl⟩ rfl rfl rfl
            · rw [hl₃]
            · rw [hclaimed, taskEvents, ← hfile₂, hev, List.nil_append, hl₃]
              rfl

theorem claimTask_claimed {counters : DatasetCounters} {l : DatasetLocalState env.indexCount}
    {page : EntryPage env.indexCount} (hstop : counters.stopRequested = false)
    (hidle : l.hasTask = false) (hclosed : l.reader.hasNumericPage = false)
    (hres : Residue env l page) : TaskClaimed l page (claimTask env counters l) :=
  claimLoop_claimed (Nat.lt_succ_self _) hstop hidle hclosed hres

/-! ### One round of the output loop -/

/-- What a round inside a task does. -/
inductive RoundDone (env : ScanEnvironment Filter) (room : Nat) (events : List ScanEvent) :
    Except IOException (Iteration (List OutputCell) (ScanState env)) → Prop where
  | failed {e : IOException} : outcome events = .error e → RoundDone env room events (.error e)
  | more {rows : List (List OutputCell)} {t : ScanState env} {past rest : List ScanEvent} :
      rows.length ≤ room → past ≠ [] → Quiet past → events = past ++ rest →
      rowsOf past = rows → ScanWork env t rest → RoundDone env room events (.ok (.more rows t))

/-- Moving the offset splits the work of a state. -/
theorem insideEvents_split (l : DatasetLocalState env.indexCount) (page : EntryPage env.indexCount)
    (count : Nat) :
    insideEvents env l page = ((pageEvents env page).drop l.valueOffset).take count ++
      insideEvents env { l with valueOffset := l.valueOffset + count } page := by
  have hsplit : (pageEvents env page).drop l.valueOffset =
      ((pageEvents env page).drop l.valueOffset).take count ++
        (pageEvents env page).drop (l.valueOffset + count) := by
    rw [← List.drop_drop, List.take_append_drop]
  calc insideEvents env l page
      = (((pageEvents env page).drop l.valueOffset).take count ++
          (pageEvents env page).drop (l.valueOffset + count)) ++
          (behindPage env l page ++ [.idle] ++
            taskEvents env l.openFile (leftPage env l page) (claimedTasks env l)) := by
        rw [← hsplit]
        rfl
    _ = _ := List.append_assoc _ _ _

/-- Emission from a state with values left in the buffer. -/
theorem emit_roundDone (hlimit : env.global.rowLimit = uint64Max) {room : Nat} (hroom : 0 < room)
    {counters : DatasetCounters} {l : DatasetLocalState env.indexCount}
    {page : EntryPage env.indexCount} (hstop : counters.stopRequested = false)
    (hhas : l.hasTask = true) (hbuf : Buffered env l page)
    (hfile : l.openFile = taskFile l.currentTask) (hleft : l.valueOffset < page.values.length) :
    RoundDone env room (insideEvents env l page)
      (match emitValues env (loadedValues env l - l.valueOffset) room counters l with
      | (rows, counters, l, true) => .ok (.last rows (counters, l))
      | (rows, counters, l, false) => .ok (.more rows (counters, l))) := by
  obtain ⟨count, hemit⟩ := emitValues_emitted hlimit room hstop hbuf rfl
  rw [hbuf.loadedValues_eq]
  generalize emitValues env _ room counters l = result at hemit ⊢
  obtain ⟨rows, counters', l', stopped⟩ := result
  obtain ⟨hrows, hstop', hstate, hstopped, -, hfits, hprogress⟩ := hemit
  dsimp only at hrows hstop' hstate hstopped hfits hprogress
  subst hstopped hstate
  have hcount : 0 < count := hprogress (Nat.sub_pos_of_lt hleft) hroom
  refine @RoundDone.more _ env room _ rows _
    (((pageEvents env page).drop l.valueOffset).take count) _ hfits ?_ ?_ ?_ hrows.symm
    (ScanWork.inside hstop' hhas (hbuf.setOffset (l.valueOffset + count)) hfile)
  · intro hnil
    rw [pageEvents_drop_cons env hleft] at hnil
    obtain ⟨count', rfl⟩ := Nat.exists_eq_succ_of_ne_zero (Nat.ne_of_gt hcount)
    cases hnil
  · intro e he
    exact pageEvents_quiet page e (List.mem_of_mem_drop (List.mem_of_mem_take he))
  · exact insideEvents_split l page count

/-- What the loading half of a round leads to: it fails as the work does, or leaves values to
    emit, or ends the task. -/
inductive Loaded (env : ScanEnvironment Filter) (l : DatasetLocalState env.indexCount)
    (page : EntryPage env.indexCount) :
    Except IOException (Bool × DatasetLocalState env.indexCount) → Prop where
  | failed {e : IOException} : outcome (insideEvents env l page) = .error e →
      Loaded env l page (.error e)
  | ready {l' : DatasetLocalState env.indexCount} {page' : EntryPage env.indexCount} :
      insideEvents env l page = insideEvents env l' page' → l'.hasTask = true →
      Buffered env l' page' → l'.openFile = taskFile l'.currentTask →
      l'.valueOffset < page'.values.length → Loaded env l page (.ok (true, l'))
  | finished {l' : DatasetLocalState env.indexCount} {rest : List ScanEvent} :
      insideEvents env l page = .idle :: rest →
      (∀ counters : DatasetCounters, counters.stopRequested = false →
        ScanWork env (counters, { l' with hasTask := false }) rest) →
      Loaded env l page (.ok (false, l'))

/-- **Inside a task**, values are loaded if the buffer is used up. -/
theorem load_loaded {l : DatasetLocalState env.indexCount} {page : EntryPage env.indexCount}
    (hhas : l.hasTask = true) (hbuf : Buffered env l page)
    (hfile : l.openFile = taskFile l.currentTask) :
    Loaded env l page
      (if loadedValues env l ≤ l.valueOffset then loadNextEntry env l else .ok (true, l)) := by
  rw [hbuf.loadedValues_eq]
  by_cases hused : page.values.length ≤ l.valueOffset
  · simp only [hused, if_true]
    have hdrop : (pageEvents env page).drop l.valueOffset = [] := by
      rw [List.drop_eq_nil_iff, pageEvents, List.length_map]
      exact hused
    have hevents : insideEvents env l page = behindPage env l page ++ ([.idle] ++
        taskEvents env l.openFile (leftPage env l page) (claimedTasks env l)) := by
      rw [insideEvents, hdrop, List.nil_append, List.append_assoc]
    have hload := loadNextEntry_loaded hbuf.toResidue
    generalize loadNextEntry env l = loaded at hload ⊢
    cases hload with
    | failed hfail =>
      refine .failed ?_
      rw [hevents]
      exact outcome_append_error hfail
    | loaded hne hbuf' hoff hsame hev hpg =>
      rename_i l' page'
      refine .ready ?_ (hsame.hasTask.trans hhas) hbuf' ?_ ?_
      · rw [hevents, hev, hpg, insideEvents, hoff, List.drop_zero, claimedTasks_congr hsame,
          hsame.openFile]
        simp only [List.append_assoc]
      · rw [hsame.openFile, hsame.currentTask]
        exact hfile
      · rw [hoff]
        exact List.length_pos_iff.mpr hne
    | finished hres hclosed hsame hev =>
      rename_i l'
      refine @Loaded.finished _ env l page l'
        (taskEvents env l.openFile (leftPage env l page) (claimedTasks env l)) ?_ ?_
      · rw [hevents, hev, List.nil_append, List.singleton_append]
      · -- the task ends: its page is what the next claim will find
        intro counters hstop
        have hwork := @ScanWork.between _ env counters { l' with hasTask := false }
          (leftPage env l page) hstop rfl hclosed ⟨hres.1, hres.2, hres.3, hres.4, hres.5⟩
        have hclaimed : claimedTasks env { l' with hasTask := false } = claimedTasks env l := by
          rw [← claimedTasks_congr hsame]
          rfl
        rw [hclaimed] at hwork
        rw [← hsame.openFile]
        exact hwork
  · simp only [hused, if_false]
    exact .ready rfl hhas hbuf hfile (Nat.lt_of_not_le hused)

/-- A round inside a task loads values if the buffer is used up, and emits. -/
theorem loadAndEmit_roundDone (hlimit : env.global.rowLimit = uint64Max) {room : Nat}
    (hroom : 0 < room) {counters : DatasetCounters} {l : DatasetLocalState env.indexCount}
    {page : EntryPage env.indexCount} (hstop : counters.stopRequested = false)
    (hhas : l.hasTask = true) (hbuf : Buffered env l page)
    (hfile : l.openFile = taskFile l.currentTask) :
    RoundDone env room (insideEvents env l page) (loadAndEmit env room counters l) := by
  have hload := load_loaded hhas hbuf hfile
  unfold loadAndEmit
  dsimp only
  generalize (if loadedValues env l ≤ l.valueOffset then loadNextEntry env l
    else .ok (true, l)) = loaded at hload ⊢
  cases hload with
  | failed hfail => exact .failed hfail
  | ready hinside hhas' hbuf' hfile' hleft =>
    rw [hinside]
    exact emit_roundDone hlimit hroom hstop hhas' hbuf' hfile' hleft
  | finished hinside hwork =>
    rw [hinside]
    refine .more (Nat.zero_le _) (List.cons_ne_nil .idle []) ?_ rfl rfl (hwork _ hstop)
    intro e he
    cases List.mem_singleton.mp he

/-- A task that was just claimed starts the work at the page that is still visible. -/
theorem claimed_insideEvents {l l' : DatasetLocalState env.indexCount}
    {page : EntryPage env.indexCount} (hoff : l'.valueOffset = 0)
    (hclosed : l'.reader.hasNumericPage = false)
    (hevents : taskEvents env l.openFile page (claimedTasks env l) =
      pageEvents env (visiblePage env page) ++ restEvents env l' ++ [.idle] ++
        taskEvents env l'.openFile (restPage env l' (visiblePage env page)) (claimedTasks env l')) :
    insideEvents env l' (visiblePage env page) =
      taskEvents env l.openFile page (claimedTasks env l) := by
  rw [hevents, insideEvents, hoff, List.drop_zero, behindPage, leftPage,
    openEvents_of_closed _ hclosed, afterOpen_of_closed _ hclosed, List.nil_append]
  simp only [List.append_assoc]

/-- **The output loop traces the work.** -/
theorem scanIteration_traces (hlimit : env.global.rowLimit = uint64Max) :
    Traces (scanIteration env) (ScanWork env) := by
  have hround : ∀ {s : ScanState env} {events : List ScanEvent} {room : Nat},
      ScanWork env s events → 0 < room →
      RoundDone env room events (scanIteration env room s) ∨
        ∃ t, scanIteration env room s = .ok (.last [] t) ∧ events = [] ∧ ScanWork env t [] := by
    intro s events room hwork hroom
    cases hwork with
    | inside hstop hhas hbuf hfile =>
      rename_i counters l page
      have hdone := loadAndEmit_roundDone hlimit hroom hstop hhas hbuf hfile
      left
      unfold scanIteration
      simp only [hhas, if_true]
      exact hdone
    | between hstop hidle hclosed hres =>
      rename_i counters l page
      have hclaim := claimTask_claimed hstop hidle hclosed hres
      unfold scanIteration
      simp only [hidle, Bool.false_eq_true, if_false]
      generalize claimTask env counters l = claimed at hclaim ⊢
      cases hclaim with
      | failed hfail => exact .inl (.failed hfail)
      | claimed hstop' hhas hoff hbuf hclosed' hfile hevents =>
        rename_i counters' l'
        left
        have hdone := loadAndEmit_roundDone hlimit hroom hstop' hhas hbuf hfile
        rw [claimed_insideEvents hoff hclosed' hevents] at hdone
        exact hdone
      | exhausted hstop' hidle' hres' hclosed' hnil hnil' =>
        rename_i counters' l'
        refine .inr ⟨(counters', l'), rfl, ?_, ?_⟩
        · rw [hnil]
          rfl
        · have hwork := ScanWork.between hstop' hidle' hclosed' hres'
          rw [hnil'] at hwork
          exact hwork
  constructor
  · intro s events room e hwork hroom hiter
    rcases hround hwork hroom with hdone | ⟨t, hlast, -, -⟩
    · rw [hiter] at hdone
      cases hdone with
      | failed hfail => exact hfail
    · rw [hiter] at hlast
      cases hlast
  · intro s events room rows t hwork hroom hiter
    rcases hround hwork hroom with hdone | ⟨t', hlast, hnil, hwork'⟩
    · rw [hiter] at hdone
      cases hdone
    · rw [hiter] at hlast
      cases hlast
      exact ⟨rfl, hnil, hwork'⟩
  · intro s events room rows t hwork hroom hiter
    rcases hround hwork hroom with hdone | ⟨t', hlast, -, -⟩
    · rw [hiter] at hdone
      cases hdone with
      | more hlen hne hquiet hev hrows hwork' =>
        exact ⟨hlen, _, _, hne, hquiet, hev, hrows, hwork'⟩
    · rw [hiter] at hlast
      cases hlast

end

end RootLake.Dataset

/-
  RootLake/Dataset/Scan.lean
  ==========================
  **The dataset scan of one worker.**

  A worker draws tasks, opens their files, walks through the entries of a task and
  through the pages of an entry, and copies the values that pass the row filters into
  output chunks of at most `STANDARD_VECTOR_SIZE` rows.  Three loops share the value
  buffers of the worker's state: the output loop (`scanIteration`), the entry loop
  (`entryStep`) and the page loop (`consumePage`).

  The ROOT reader is an oracle: for a task and an entry it says how `BeginNumericEntry`
  answers and, for a paged entry, which pages `ReadNumericPage` will hand over.  Pages
  carry at least one value; whether the reader still announces a page after the last
  one is left open, since the two cursors of the reader differ in it.
-/
import RootLake.Dataset.Filters
import RootLake.Lib.Batch

namespace RootLake.Dataset

open Ieee Batch

/-! ### What the reader hands over -/

/-- A decoded value with its complete index tuple. -/
structure DecodedValue (indexCount : Nat) where
  value : RootPrimitiveValue
  indices : List Int32
  complete : indices.length = indexCount
  deriving DecidableEq, Repr

/-- What the reader does when it is asked for a page after the last one: it is closed and
    announces none, it announces one and answers NONE, or it raises. -/
inductive PagesEnd where
  | closed
  | pending
  | failed (e : IOException)
  deriving DecidableEq, Repr

/-- An entry opened for paged reading. -/
structure OpenPages (indexCount : Nat) where
  pages : List (List (DecodedValue indexCount))
  after : PagesEnd
  nonempty : ∀ page ∈ pages, page ≠ []

/-- No entry is open. -/
def OpenPages.none (indexCount : Nat) : OpenPages indexCount where
  pages := []
  after := .closed
  nonempty := by
    intro page h
    cases h

def OpenPages.hasNumericPage {indexCount : Nat} (reader : OpenPages indexCount) : Bool :=
  !reader.pages.isEmpty || reader.after != .closed

/-- The answers of `BeginNumericEntry`.  The NONE route can leave values of a rejected
    serialized attempt in the caller's buffers. -/
inductive NumericEntry (indexCount : Nat) where
  | none (leftover : List (DecodedValue indexCount))
  | serializedValues (values : List (DecodedValue indexCount))
  | paged (pages : OpenPages indexCount)

/-- Everything a worker reads and does not change. -/
structure ScanEnvironment (Filter : Type) where
  bind : DatasetBindData
  global : DatasetGlobalState
  entryFilters : List (RootFilterBinding Filter) := []
  elementFilters : List (RootFilterBinding Filter) := []
  outputColumnIds : List OutputColumn
  standardVectorSize : Nat
  evaluate : Evaluate Filter
  openRootFile : RootBasketTask → Except IOException Unit
  numericEntry : RootBasketTask → UInt64 → Except IOException (NumericEntry bind.indexNames.length)
  predicateValues : RootBasketTask → UInt64 → Nat → Option (List RootPrimitiveValue)

namespace ScanEnvironment

variable {Filter : Type} (env : ScanEnvironment Filter)

abbrev indexCount : Nat := env.bind.indexNames.length

def typedTransport : Bool := env.bind.typedTransport

end ScanEnvironment

/-! ### The worker's state -/

/-- Thread-local reader and flattened value buffers.  `upcomingGroups` stands for the
    shared counter: the groups this worker's increments will still hit. -/
structure DatasetLocalState (indexCount : Nat) where
  openFile : Option (String × String) := .none
  reader : OpenPages indexCount := OpenPages.none indexCount
  currentTask : RootBasketTask := default
  hasTask : Bool := false
  currentEntry : UInt64 := 0
  values : List Double := []
  typedValues : List RootPrimitiveValue := []
  flatIndices : List Int32 := []
  valueOffset : Nat := 0
  valueEventFk : UInt64 := 0
  valueEntryId : UInt64 := 0
  valueSourceId : String := ""
  cursor : TaskCursor := {}
  upcomingGroups : List RootFileTaskGroup

/-- The shared counters a worker adds to. -/
structure DatasetCounters where
  skippedEntries : UInt64 := 0
  completedTasks : UInt64 := 0
  emittedRows : UInt64 := 0
  stopRequested : Bool := false
  deriving DecidableEq, Repr

/-- Grant output rows.  The compare-and-swap loop of the source is taken to succeed. -/
def reserveOutputRows (global : DatasetGlobalState) (counters : DatasetCounters)
    (requested : UInt64) : UInt64 × DatasetCounters :=
  if requested = 0 ∨ counters.stopRequested then (0, counters)
  else if global.rowLimit = uint64Max then
    (requested, { counters with emittedRows := counters.emittedRows + requested })
  else if counters.emittedRows < global.rowLimit then
    let granted := stdMin (global.rowLimit - counters.emittedRows) requested
    (granted,
      { counters with
        emittedRows := counters.emittedRows + granted
        stopRequested := decide (global.rowLimit ≤ counters.emittedRows + granted) })
  else (0, { counters with stopRequested := true })

section

variable {Filter : Type} (env : ScanEnvironment Filter)

/-! ### Claiming a task -/

/-- The tasks this worker still takes, before clipping. -/
def remainingTasks (l : DatasetLocalState env.indexCount) : List RootBasketTask :=
  l.cursor.remaining env.global ++
    l.upcomingGroups.flatMap fun group => (TaskCursor.enter group).remaining env.global

/-- Draw a group when the current one is used up; `none` when the counter has run past the
    last group. -/
def drawGroup {indexCount : Nat} (l : DatasetLocalState indexCount) :
    Option (DatasetLocalState indexCount) :=
  if l.cursor.needsGroup then
    match l.upcomingGroups with
    | [] => none
    | group :: rest => some { l with cursor := TaskCursor.enter group, upcomingGroups := rest }
  else some l

/-- A file stays open from one task to the next; opening another one resets the reader. -/
def openTaskFile (l : DatasetLocalState env.indexCount) (task : RootBasketTask) :
    Except IOException (DatasetLocalState env.indexCount) :=
  if l.openFile = some (task.rootUri, task.schemaId) then .ok l
  else do
    env.openRootFile task
    return { l with
      openFile := some (task.rootUri, task.schemaId)
      reader := OpenPages.none env.indexCount }

def claimLoop : Nat → DatasetCounters → DatasetLocalState env.indexCount →
    Except IOException (Bool × DatasetCounters × DatasetLocalState env.indexCount)
  | 0, counters, l => .ok (false, counters, l)
  | steps + 1, counters, l =>
      match drawGroup l with
      | none => .ok (false, counters, l)
      | some l =>
          let task := l.cursor.task env.global
          let l := { l with cursor := l.cursor.advance }
          match clipTask env.global task with
          | (none, skipped) =>
              claimLoop steps
                { counters with skippedEntries := counters.skippedEntries + skipped } l
          | (some task, skipped) => do
              let l ← openTaskFile env l task
              return (true,
                { counters with skippedEntries := counters.skippedEntries + skipped },
                { l with
                  currentTask := task
                  currentEntry := task.entryBegin
                  values := []
                  valueOffset := 0
                  hasTask := true })

/-- The loop of `ClaimTask` takes one task in each round, so the tasks left bound it. -/
def claimTask (counters : DatasetCounters) (l : DatasetLocalState env.indexCount) :
    Except IOException (Bool × DatasetCounters × DatasetLocalState env.indexCount) :=
  claimLoop env ((remainingTasks env l).length + 1) counters l

/-! ### Loading the next page of values -/

/-- Put a page into the buffers of the transport in use. -/
def storeValues (l : DatasetLocalState env.indexCount)
    (page : List (DecodedValue env.indexCount)) : DatasetLocalState env.indexCount :=
  let flatIndices := page.flatMap (·.indices)
  if env.typedTransport then
    { l with
      values := []
      typedValues := page.map (·.value)
      flatIndices := flatIndices
      valueOffset := 0 }
  else
    { l with
      values := page.map (·.value.asDouble)
      typedValues := []
      flatIndices := flatIndices
      valueOffset := 0 }

/-- `consume_page`: read one page into the buffers, or find the entry finished. -/
def consumePage (l : DatasetLocalState env.indexCount) :
    Except IOException (Bool × DatasetLocalState env.indexCount) :=
  match hpages : l.reader.pages with
  | page :: rest =>
      .ok (!page.isEmpty,
        storeValues env
          { l with
            reader :=
              { pages := rest
                after := l.reader.after
                nonempty := by
                  intro other h
                  exact l.reader.nonempty other (hpages ▸ List.mem_cons_of_mem _ h) } }
          page)
  | [] =>
      match l.reader.after with
      | .failed e => .error e
      | _ =>
          .ok (false,
            { l with
              values := []
              typedValues := []
              flatIndices := []
              reader := OpenPages.none env.indexCount })

/-- One predicate after the other; the first one that rejects the entry decides.  An
    entry without an object is rejected. -/
def passesPathPredicates (task : RootBasketTask) (entry : UInt64) : Except IOException Bool :=
  env.bind.pathPredicates.zipIdx.allM fun (predicate, index) =>
    match env.predicateValues task entry index with
    | none => .ok false
    | some values => pathPredicateEventMatches predicate values

/-- The overflow check of `LoadNextEntry`: `entry > max - event_base`. -/
def eventFkExceedsRange (task : RootBasketTask) (entry : UInt64) : Bool :=
  decide (uint64Max.toNat - task.eventBase.toNat < entry.toNat)

/-- How an entry is begun: it raises, is rejected by a filter or a predicate, or is opened by
    `BeginNumericEntry`, which refuses while pages are unread. -/
def beginEntry (unread : Bool) (task : RootBasketTask) (entry : UInt64) :
    Except IOException (Option (NumericEntry env.indexCount)) :=
  if eventFkExceedsRange task entry then
    .error ⟨"Indexed ROOT event_fk exceeds UINT64 range"⟩
  else if !passesDatasetEntryFilters env.evaluate env.bind env.entryFilters task entry then
    .ok none
  else do
    if !(← passesPathPredicates env task entry) then return none
    if unread then throw ⟨"cannot begin another ROOT entry with unread numeric pages"⟩
    return some (← env.numericEntry task entry)

/-- One round of the entry loop; the flag says whether values were loaded. -/
def entryStep (l : DatasetLocalState env.indexCount) :
    Except IOException (Bool × DatasetLocalState env.indexCount) :=
  let entry := l.currentEntry
  let task := l.currentTask
  match beginEntry env l.reader.hasNumericPage task entry with
  | .error e => .error e
  | .ok none => .ok (false, { l with currentEntry := entry + 1 })
  | .ok (some (.none leftover)) =>
      .ok (false,
        { l with
          currentEntry := entry + 1
          values := []
          typedValues := leftover.map (·.value)
          flatIndices := leftover.flatMap (·.indices) })
  | .ok (some (.serializedValues values)) =>
      .ok (!values.isEmpty,
        storeValues env
          { l with
            currentEntry := entry + 1
            valueEventFk := task.eventBase + entry
            valueEntryId := entry
            valueSourceId := task.fileId } values)
  | .ok (some (.paged pages)) =>
      consumePage env
        { l with
          currentEntry := entry + 1
          valueEventFk := task.eventBase + entry
          valueEntryId := entry
          valueSourceId := task.fileId
          values := []
          typedValues := []
          flatIndices := []
          valueOffset := 0
          reader := pages }

/-- `LoadNextEntry`: the page loop for an announced page, then the entry loop, which runs from
    the current entry to the end of the task. -/
def loadNextEntry (l : DatasetLocalState env.indexCount) :
    Except IOException (Bool × DatasetLocalState env.indexCount) :=
  let opened := if l.reader.hasNumericPage then consumePage env l else .ok (false, l)
  match opened with
  | .error e => .error e
  | .ok (true, l) => .ok (true, l)
  | .ok (false, l) =>
      repeatUntil (entryStep env) (l.currentTask.entryEnd.toNat - l.currentEntry.toNat) l

/-! ### The output loop -/

/-- The number of values in the buffer of the transport in use. -/
def loadedValues (l : DatasetLocalState env.indexCount) : Nat :=
  if env.typedTransport then l.typedValues.length else l.values.length

/-- The row at a position of the buffers: the index tuple is a window of the flat indices. -/
def bufferedRow (l : DatasetLocalState env.indexCount) (valueIndex : Nat) : DatasetRow where
  eventFk := l.valueEventFk
  indices := (l.flatIndices.drop (valueIndex * env.indexCount)).take env.indexCount
  value :=
    if env.typedTransport then .primitive (l.typedValues.getD valueIndex default)
    else .double (l.values.getD valueIndex default)
  sourceId := l.valueSourceId
  entryId := l.valueEntryId

/-- The inner loop of `Scan`: emit buffered values while there is room.  The last component
    says that the row budget is used up, which ends the call. -/
def emitValues : Nat → Nat → DatasetCounters → DatasetLocalState env.indexCount →
    List (List OutputCell) × DatasetCounters × DatasetLocalState env.indexCount × Bool
  | 0, _, counters, l => ([], counters, l, false)
  | _ + 1, 0, counters, l => ([], counters, l, false)
  | steps + 1, room + 1, counters, l =>
      let row := bufferedRow env l l.valueOffset
      let l := { l with valueOffset := l.valueOffset + 1 }
      if !passesFilters env.evaluate env.bind env.elementFilters row then
        emitValues steps (room + 1) counters l
      else
        let (granted, counters) := reserveOutputRows env.global counters 1
        if granted = 0 then ([], counters, l, true)
        else
          let (rows, counters, l, stopped) := emitValues steps room counters l
          (emitProjectedRow env.bind env.outputColumnIds row :: rows, counters, l, stopped)

abbrev ScanState := DatasetCounters × DatasetLocalState env.indexCount

/-- The part of a round of the output loop behind the claim: load values if none are
    buffered, and emit. -/
def loadAndEmit (room : Nat) (counters : DatasetCounters)
    (l : DatasetLocalState env.indexCount) :
    Except IOException (Iteration (List OutputCell) (ScanState env)) :=
  let loaded :=
    if loadedValues env l ≤ l.valueOffset then loadNextEntry env l else .ok (true, l)
  match loaded with
  | .error e => .error e
  | .ok (false, l) =>
      .ok (.more [] ({ counters with completedTasks := counters.completedTasks + 1 },
        { l with hasTask := false }))
  | .ok (true, l) =>
      match emitValues env (loadedValues env l - l.valueOffset) room counters l with
      | (rows, counters, l, true) => .ok (.last rows (counters, l))
      | (rows, counters, l, false) => .ok (.more rows (counters, l))

/-- One round of the output loop with room for `room` rows. -/
def scanIteration (room : Nat) (s : ScanState env) :
    Except IOException (Iteration (List OutputCell) (ScanState env)) :=
  let claimed := if s.2.hasTask then .ok (true, s.1, s.2) else claimTask env s.1 s.2
  match claimed with
  | .error e => .error e
  | .ok (false, counters, l) => .ok (.last [] (counters, l))
  | .ok (true, counters, l) => loadAndEmit env room counters l

/-- `Scan`: fill one output chunk. -/
def scan (fuel : Nat) (s : ScanState env) :
    Except (Stop IOException) (List (List OutputCell) × ScanState env) :=
  fill (scanIteration env) fuel env.standardVectorSize s

/-- The rows of a number of consecutive `Scan` calls of one worker. -/
def scanCalls (fuel calls : Nat) (s : ScanState env) :
    Except (Stop IOException) (List (List OutputCell)) :=
  drain (scan env fuel) calls s

end

end RootLake.Dataset

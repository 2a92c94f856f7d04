/-
  RootLake/Dataset/Plan.lean
  ==========================
  **From basket rows to tasks and groups.**

  The planner reads the surviving basket rows in the order of their file and their
  physical offset, clips each one to the candidate intervals of its file, joins a
  candidate to the previous task when the two are adjacent in entries and close on
  disk, and cuts the task list into one group for each run of tasks of a file.
-/
import RootLake.Dataset.EntrySelection

namespace RootLake.Dataset

/-! ### Input and state -/

/-- A row of the basket query. -/
structure BasketRow where
  task : RootBasketTask
  bloom : Option (List UInt8) := none
  deriving DecidableEq, Repr

/-- What the task loop of `Plan` reads.  The ranges in `global` have been extracted and
    its tasks and groups are still empty. -/
structure PlanInput where
  global : DatasetGlobalState := {}
  entrySelectionActive : Bool := false
  hasPathPredicates : Bool := false
  candidateIntervals : String → Option CandidateIntervals := fun _ => none
  hasFilters : Bool := false
  hasValueFilter : Bool := false
  bloomMayContain : List UInt8 → Bool := fun _ => true
  coalesceGapBytes : UInt64 := 64 * 1024
  rowLimit : UInt64 := uint64Max
  treeCacheExplicit : Bool := false
  treeCacheBytes : UInt64 := 0

namespace PlanInput

def intervalFilterActive (input : PlanInput) : Bool :=
  input.entrySelectionActive || input.hasPathPredicates

def canStopAfterRowLimit (input : PlanInput) : Bool :=
  input.rowLimit != uint64Max && !input.hasFilters && !input.intervalFilterActive

end PlanInput

/-- The counters and tasks the loop accumulates; the tasks are kept newest first. -/
structure PlanState where
  tasks : List RootBasketTask := []
  plannedCompressedBytes : UInt64 := 0
  plannedValues : UInt64 := 0
  plannedBaskets : UInt64 := 0
  bloomMetadataBytes : UInt64 := 0
  selectedFiles : List String := []

section

variable (input : PlanInput)

/-! ### One row -/

/-- The Bloom filter of the row does not exclude the value filter. -/
def passesBloom (row : BasketRow) : Bool :=
  !input.hasValueFilter ||
    match row.bloom with
    | none => true
    | some bytes => input.bloomMayContain bytes

def countBloom (state : PlanState) (row : BasketRow) : PlanState :=
  match row.bloom with
  | none => state
  | some bytes =>
      if input.hasValueFilter then
        { state with
          bloomMetadataBytes := state.bloomMetadataBytes + UInt64.ofNat bytes.length }
      else state

/-- The parts of a basket in the candidate intervals of its file. -/
def candidateTasks (task : RootBasketTask) : List RootBasketTask :=
  if input.intervalFilterActive then
    match input.candidateIntervals task.fileId with
    | none => []
    | some candidates =>
        candidates.intervals.filterMap fun interval =>
          let entryBegin := stdMax task.entryBegin interval.start
          let entryEnd := stdMin task.entryEnd interval.stop
          if entryEnd ≤ entryBegin then none
          else some { task with entryBegin := entryBegin, entryEnd := entryEnd }
  else [task]

/-- A sum of counters that does not fit. -/
def sumExceeds (counter added : UInt64) : Bool :=
  decide (uint64Max.toNat - counter.toNat < added.toNat)

def countBasket (state : PlanState) (task : RootBasketTask) : Except IOException PlanState :=
  if sumExceeds state.plannedCompressedBytes task.compressedSize ||
      sumExceeds state.plannedValues task.valueCount ||
      decide (state.plannedBaskets = uint64Max) then
    .error ⟨"Indexed ROOT basket counters exceed their supported range"⟩
  else
    .ok { state with
      plannedCompressedBytes := state.plannedCompressedBytes + task.compressedSize
      plannedValues := state.plannedValues + task.valueCount
      plannedBaskets := state.plannedBaskets + 1 }

/-- The candidate continues the previous task: same file and schema, next entry, and behind it
    on disk within the gap. -/
def continuesTask (previous candidate : RootBasketTask) : Bool :=
  let previousEnd := previous.physicalOffset + previous.compressedSize
  let ordered := decide (previousEnd ≤ candidate.physicalOffset)
  let gap := if ordered then candidate.physicalOffset - previousEnd else uint64Max
  previous.rootUri == candidate.rootUri && previous.treeName == candidate.treeName &&
    previous.schemaId == candidate.schemaId && previous.entryEnd == candidate.entryBegin &&
    ordered && decide (gap ≤ input.coalesceGapBytes)

/-- The previous task, extended by a candidate that continues it. -/
def extendTask (previous candidate : RootBasketTask) : RootBasketTask :=
  { previous with
    entryEnd := candidate.entryEnd
    valueCount := previous.valueCount + candidate.valueCount
    compressedSize :=
      candidate.physicalOffset + candidate.compressedSize - previous.physicalOffset
    basketCount := previous.basketCount + 1 }

def scheduleCandidate (tasks : List RootBasketTask) (candidate : RootBasketTask) :
    Except IOException (List RootBasketTask) :=
  match tasks with
  | [] => .ok [candidate]
  | previous :: older =>
      if continuesTask input previous candidate then
        if sumExceeds previous.valueCount candidate.valueCount ||
            decide (previous.basketCount = 0xFFFFFFFF) then
          .error ⟨"Coalesced ROOT basket task exceeds its supported range"⟩
        else .ok (extendTask previous candidate :: older)
      else .ok (candidate :: previous :: older)

def scheduleCandidates (tasks : List RootBasketTask) : List RootBasketTask →
    Except IOException (List RootBasketTask)
  | [] => .ok tasks
  | candidate :: rest =>
      match scheduleCandidate input tasks candidate with
      | .error e => .error e
      | .ok tasks => scheduleCandidates tasks rest

/-- One round of the task loop. -/
def planRow (state : PlanState) (row : BasketRow) : Except IOException PlanState :=
  if sumExceeds row.task.physicalOffset row.task.compressedSize then
    .error ⟨"Indexed ROOT basket extends beyond the addressable file range: " ++
      row.task.rootUri⟩
  else
    let state := countBloom input state row
    if !passesBloom input row then .ok state
    else
      match candidateTasks input row.task with
      | [] => .ok state
      | candidate :: rest =>
          match countBasket state candidate with
          | .error e => .error e
          | .ok state =>
              match scheduleCandidates input state.tasks (candidate :: rest) with
              | .error e => .error e
              | .ok tasks =>
                  .ok { state with
                    tasks := tasks
                    selectedFiles := state.selectedFiles.insert row.task.rootUri }

/-- The task loop, with the rows it fetches before it stops. -/
def planRows (state : PlanState) : List BasketRow → Except IOException (PlanState × List BasketRow)
  | [] => .ok (state, [])
  | row :: rest =>
      match planRow input state row with
      | .error e => .error e
      | .ok state =>
          if input.canStopAfterRowLimit && decide (input.rowLimit ≤ state.plannedValues) then
            .ok (state, [row])
          else
            match planRows state rest with
            | .error e => .error e
            | .ok (state, fetched) => .ok (state, row :: fetched)

/-! ### Groups -/

/-- The loop of `ScansEntireFileSequentially` behind its first check. -/
def scansSequentiallyFrom (first : RootBasketTask) :
    List RootBasketTask → UInt64 → UInt64 → Bool
  | [], nextEntry, selectedBaskets =>
      selectedBaskets == first.fileTotalBaskets && nextEntry == first.fileTotalEntries
  | task :: rest, nextEntry, selectedBaskets =>
      if task.fileId != first.fileId || task.schemaId != first.schemaId ||
          task.fileTotalEntries != first.fileTotalEntries ||
          task.fileTotalBaskets != first.fileTotalBaskets || task.entryBegin != nextEntry ||
          decide (task.entryEnd ≤ task.entryBegin) ||
          decide (first.fileTotalEntries < task.entryEnd) ||
          decide (first.fileTotalBaskets - selectedBaskets < task.basketCount.toUInt64) then
        false
      else
        scansSequentiallyFrom first rest task.entryEnd
          (selectedBaskets + task.basketCount.toUInt64)

def scansEntireFileSequentially : List RootBasketTask → Bool
  | [] => false
  | first :: rest =>
      if first.fileTotalEntries == 0 || first.fileTotalBaskets == 0 then false
      else scansSequentiallyFrom first (first :: rest) 0 0

/-- The tree cache is used for complete sequential scans only, unless it was asked for. -/
def groupCacheBytes (tasks : List RootBasketTask) : UInt64 :=
  let completeScan :=
    !input.global.localEntryRange.known && !input.global.hasEventRange &&
      !input.entrySelectionActive && !input.hasPathPredicates && !input.hasFilters &&
      input.rowLimit == uint64Max && scansEntireFileSequentially tasks
  if input.treeCacheExplicit || completeScan then input.treeCacheBytes else 0

/-- The loop of `BuildFileTaskGroups` from a position on; every round takes at least one
    task. -/
def buildGroupsFrom : Nat → Nat → List RootBasketTask → List RootFileTaskGroup
  | 0, _, _ => []
  | _ + 1, _, [] => []
  | rounds + 1, first, task :: rest =>
      let run := rest.takeWhile fun other => other.rootUri == task.rootUri
      { first := first
        last := first + 1 + run.length
        cacheBytes := groupCacheBytes input (task :: run)
        nonempty := by omega } ::
        buildGroupsFrom rounds (first + 1 + run.length) (rest.drop run.length)

def buildFileTaskGroups (tasks : List RootBasketTask) : List RootFileTaskGroup :=
  buildGroupsFrom input tasks.length 0 tasks

/-- **The plan**: the scan's task list and groups, with the rows that were fetched. -/
def plan (rows : List BasketRow) :
    Except IOException (DatasetGlobalState × PlanState × List BasketRow) :=
  match planRows input {} rows with
  | .error e => .error e
  | .ok (state, fetched) =>
      let tasks := state.tasks.reverse
      .ok ({ input.global with tasks := tasks, taskGroups := buildFileTaskGroups input tasks },
        state, fetched)

end

end RootLake.Dataset

/-
  RootLake/Dataset/Task.lean
  ==========================
  **Basket tasks, file groups and the two clips of a claimed task.**

  The planner leaves a vector of tasks, each a half-open range of entries of one file,
  and a partition of that vector into groups of one file each.  Workers draw groups from
  an atomic counter and walk through the tasks of a group; a task is clipped to the
  event range and to the entry range of the query before it is read, and the entries
  cut off are counted as skipped.

  Entry numbers and event keys are 64-bit words, and every sum and difference wraps as
  it does in the source.
-/
import RootLake.Reader.PrimitiveValue

namespace RootLake.Dataset

/-! ### Words -/

/-- `std::numeric_limits<uint64_t>::max()`. -/
def uint64Max : UInt64 := 0xFFFFFFFFFFFFFFFF

def stdMax (a b : UInt64) : UInt64 := if a < b then b else a

def stdMin (a b : UInt64) : UInt64 := if b < a then b else a

theorem toNat_uint64Max : uint64Max.toNat = 2 ^ 64 - 1 := rfl

theorem toNat_stdMax (a b : UInt64) : (stdMax a b).toNat = max a.toNat b.toNat := by
  unfold stdMax
  split
  next h =>
    rw [UInt64.lt_iff_toNat_lt] at h
    omega
  next h =>
    rw [UInt64.lt_iff_toNat_lt] at h
    omega

theorem toNat_stdMin (a b : UInt64) : (stdMin a b).toNat = min a.toNat b.toNat := by
  unfold stdMin
  split
  next h =>
    rw [UInt64.lt_iff_toNat_lt] at h
    omega
  next h =>
    rw [UInt64.lt_iff_toNat_lt] at h
    omega

/-- A sum of words that fits does not wrap. -/
theorem toNat_add_of_lt {a b : UInt64} (h : a.toNat + b.toNat < 2 ^ 64) :
    (a + b).toNat = a.toNat + b.toNat := by
  rw [UInt64.toNat_add, Nat.mod_eq_of_lt h]

/-- A difference of words in order does not wrap. -/
theorem toNat_sub_of_le {a b : UInt64} (h : b.toNat ≤ a.toNat) :
    (a - b).toNat = a.toNat - b.toNat :=
  UInt64.toNat_sub_of_le a b (UInt64.le_iff_toNat_le.mpr h)

theorem toNat_ofNat_of_lt {n : Nat} (h : n < 2 ^ 64) : (UInt64.ofNat n).toNat = n := by
  rw [UInt64.toNat_ofNat', Nat.mod_eq_of_lt h]

/-! ### Tasks and groups -/

/-- A physically pruned basket range scheduled for decoding. -/
structure RootBasketTask where
  fileId : String
  rootUri : String
  treeName : String
  schemaId : String
  eventBase : UInt64
  entryBegin : UInt64
  entryEnd : UInt64
  valueCount : UInt64
  physicalOffset : UInt64
  compressedSize : UInt64
  basketCount : UInt32
  fileTotalEntries : UInt64
  fileTotalBaskets : UInt64
  deriving DecidableEq, Repr, Inhabited

/-- Contiguous tasks that share one open file.  The planner never builds an empty
    group, and a worker relies on it: it takes the first task of a group it has drawn
    without looking at the end of the group. -/
structure RootFileTaskGroup where
  first : Nat
  last : Nat
  cacheBytes : UInt64
  nonempty : first < last
  deriving DecidableEq, Repr

/-- Inclusive range extracted from a filter on an unsigned column. -/
structure RootUnsignedFilterRange where
  known : Bool := false
  impossible : Bool := false
  lower : UInt64 := 0
  upper : UInt64 := uint64Max
  deriving DecidableEq, Repr, Inhabited

/-- The part of `DatasetGlobalState` that is written by the planner and only read by
    the workers. -/
structure DatasetGlobalState where
  tasks : List RootBasketTask := []
  taskGroups : List RootFileTaskGroup := []
  hasEventRange : Bool := false
  eventLower : UInt64 := 0
  eventUpper : UInt64 := uint64Max
  localEntryRange : RootUnsignedFilterRange := {}
  rowLimit : UInt64 := uint64Max

/-- The entries of a task, in reading order. -/
def RootBasketTask.entries (task : RootBasketTask) : List UInt64 :=
  (List.range' task.entryBegin.toNat (task.entryEnd.toNat - task.entryBegin.toNat)).map
    UInt64.ofNat

/-! ### Clipping a claimed task -/

/-- First clip of `ClaimTask`: the part of the task in the event range, with the number of
    entries cut off.  No part is left when the first component is `none`. -/
def clipToEventRange (global : DatasetGlobalState) (task : RootBasketTask) :
    Option RootBasketTask × UInt64 :=
  if global.hasEventRange then
    let taskEventBegin := task.eventBase + task.entryBegin
    let taskEventEnd := task.eventBase + task.entryEnd
    let wantedBegin := stdMax taskEventBegin global.eventLower
    let wantedEndExclusive :=
      if global.eventUpper = uint64Max then taskEventEnd
      else stdMin taskEventEnd (global.eventUpper + 1)
    if wantedEndExclusive ≤ wantedBegin then (none, task.entryEnd - task.entryBegin)
    else
      let entryBegin := wantedBegin - task.eventBase
      let entryEnd := wantedEndExclusive - task.eventBase
      (some { task with entryBegin := entryBegin, entryEnd := entryEnd },
        (entryBegin - task.entryBegin) + (task.entryEnd - entryEnd))
  else (some task, 0)

/-- Second clip of `ClaimTask`: the part of the task in the file-local entry range. -/
def clipToEntryRange (global : DatasetGlobalState) (task : RootBasketTask) :
    Option RootBasketTask × UInt64 :=
  if global.localEntryRange.known then
    let upperExclusive :=
      if global.localEntryRange.upper = uint64Max then task.entryEnd
      else stdMin task.entryEnd (global.localEntryRange.upper + 1)
    let entryBegin := stdMax task.entryBegin global.localEntryRange.lower
    if upperExclusive ≤ entryBegin then (none, task.entryEnd - task.entryBegin)
    else
      (some { task with entryBegin := entryBegin, entryEnd := upperExclusive },
        (entryBegin - task.entryBegin) + (task.entryEnd - upperExclusive))
  else (some task, 0)

/-- Both clips, in the order of `ClaimTask`. -/
def clipTask (global : DatasetGlobalState) (task : RootBasketTask) :
    Option RootBasketTask × UInt64 :=
  match clipToEventRange global task with
  | (none, skipped) => (none, skipped)
  | (some clipped, skipped) =>
      let (claimed, skippedHere) := clipToEntryRange global clipped
      (claimed, skipped + skippedHere)

/-! ### Drawing tasks from a group -/

/-- The position of a worker in its current group. -/
structure TaskCursor where
  nextTaskInGroup : Nat := 0
  taskGroupEnd : Nat := 0
  fileCacheBytes : UInt64 := 0
  deriving DecidableEq, Repr, Inhabited

/-- The worker has to draw another group. -/
def TaskCursor.needsGroup (cursor : TaskCursor) : Prop :=
  cursor.taskGroupEnd ≤ cursor.nextTaskInGroup

instance (cursor : TaskCursor) : Decidable cursor.needsGroup :=
  inferInstanceAs (Decidable (cursor.taskGroupEnd ≤ cursor.nextTaskInGroup))

def TaskCursor.enter (group : RootFileTaskGroup) : TaskCursor where
  nextTaskInGroup := group.first
  taskGroupEnd := group.last
  fileCacheBytes := group.cacheBytes

def TaskCursor.advance (cursor : TaskCursor) : TaskCursor :=
  { cursor with nextTaskInGroup := cursor.nextTaskInGroup + 1 }

/-- The task under the cursor. -/
def TaskCursor.task (global : DatasetGlobalState) (cursor : TaskCursor) : RootBasketTask :=
  global.tasks.getD cursor.nextTaskInGroup default

/-- The tasks a worker still takes from its current group. -/
def TaskCursor.remaining (global : DatasetGlobalState) (cursor : TaskCursor) :
    List RootBasketTask :=
  (List.range' cursor.nextTaskInGroup (cursor.taskGroupEnd - cursor.nextTaskInGroup)).map
    fun index => global.tasks.getD index default

theorem TaskCursor.remaining_of_needsGroup (global : DatasetGlobalState) {cursor : TaskCursor}
    (h : cursor.needsGroup) : cursor.remaining global = [] := by
  have hzero : cursor.taskGroupEnd - cursor.nextTaskInGroup = 0 := Nat.sub_eq_zero_of_le h
  simp [remaining, hzero]

theorem TaskCursor.remaining_of_not_needsGroup (global : DatasetGlobalState)
    {cursor : TaskCursor} (h : ¬ cursor.needsGroup) :
    cursor.remaining global = cursor.task global :: cursor.advance.remaining global := by
  have hlt : cursor.nextTaskInGroup < cursor.taskGroupEnd := Nat.lt_of_not_le h
  have hsucc : cursor.taskGroupEnd - cursor.nextTaskInGroup =
      (cursor.taskGroupEnd - (cursor.nextTaskInGroup + 1)) + 1 := by omega
  unfold remaining
  rw [hsucc, List.range'_succ, List.map_cons]
  rfl

theorem TaskCursor.enter_not_needsGroup (group : RootFileTaskGroup) :
    ¬ (TaskCursor.enter group).needsGroup :=
  Nat.not_le_of_lt group.nonempty

end RootLake.Dataset

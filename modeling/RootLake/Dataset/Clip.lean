/-
  RootLake/Dataset/Clip.lean
  ==========================
  **What the two clips of a claimed task keep.**

  Clipping to the file-local entry range keeps the entries of the task that are in the
  range, and counts the others as skipped.  Clipping to the event range does so for a
  task whose event keys end below `2 ^ 64`; behind that the end of the task wraps to a
  small number, and the task is cut off whole.
-/
import RootLake.Dataset.PlanCoverage
import Mathlib.Data.List.Nodup

namespace RootLake.Dataset

/-! ### Ranges -/

variable (global : DatasetGlobalState)

/-- The event of the entry is in the event range of the query. -/
def InEventRange (eventBase : UInt64) (entry : Nat) : Prop :=
  global.hasEventRange = true →
    global.eventLower.toNat ≤ eventBase.toNat + entry ∧
      eventBase.toNat + entry ≤ global.eventUpper.toNat

/-- The entry is in the file-local entry range of the query. -/
def InEntryRange (entry : Nat) : Prop :=
  global.localEntryRange.known = true →
    global.localEntryRange.lower.toNat ≤ entry ∧ entry ≤ global.localEntryRange.upper.toNat

/-- The task has no entry in the event range. -/
def MissesEventRange (task : RootBasketTask) : Prop :=
  ∀ entry, task.entryBegin.toNat ≤ entry → entry < task.entryEnd.toNat →
    ¬ InEventRange global task.eventBase entry

/-- The exclusive end of the task's events is a word, or no event of the task is asked
    for. -/
def EventEndFits (task : RootBasketTask) : Prop :=
  global.hasEventRange = true →
    task.eventBase.toNat + task.entryEnd.toNat < 2 ^ 64 ∨
      task.eventBase.toNat + task.entryBegin.toNat < 2 ^ 64 ∧ MissesEventRange global task

/-! ### Entries of a task -/

theorem RootBasketTask.length_entries (task : RootBasketTask) :
    task.entries.length = task.entryEnd.toNat - task.entryBegin.toNat := by
  simp [RootBasketTask.entries]

/-- The number of entries of a task, as the word the source computes. -/
theorem RootBasketTask.ofNat_length_entries {task : RootBasketTask}
    (h : task.entryBegin.toNat ≤ task.entryEnd.toNat) :
    UInt64.ofNat task.entries.length = task.entryEnd - task.entryBegin := by
  rw [task.length_entries]
  refine UInt64.toNat_inj.mp ?_
  have hlt := task.entryEnd.toNat_lt
  rw [toNat_sub_of_le h, toNat_ofNat_of_lt (by omega)]

/-- A task reads an entry once, and reads the entries it holds. -/
theorem RootBasketTask.count_entries (task : RootBasketTask) (entry : UInt64) :
    task.entries.count entry =
      if task.entryBegin.toNat ≤ entry.toNat ∧ entry.toNat < task.entryEnd.toNat
      then 1 else 0 := by
  have hend := task.entryEnd.toNat_lt
  have hinjective : ∀ n ∈ List.range' task.entryBegin.toNat
      (task.entryEnd.toNat - task.entryBegin.toNat), (UInt64.ofNat n).toNat = n := by
    intro n hn
    rw [List.mem_range'_1] at hn
    exact toNat_ofNat_of_lt (by omega)
  have hnodup : task.entries.Nodup := by
    refine List.Nodup.map_on ?_ List.nodup_range'
    intro n hn m hm heq
    rw [← hinjective n hn, ← hinjective m hm, heq]
  have hmem : entry ∈ task.entries ↔
      task.entryBegin.toNat ≤ entry.toNat ∧ entry.toNat < task.entryEnd.toNat := by
    unfold RootBasketTask.entries
    rw [List.mem_map]
    constructor
    · rintro ⟨n, hn, rfl⟩
      rw [hinjective n hn]
      rw [List.mem_range'_1] at hn
      omega
    · rintro ⟨hbegin, hlt⟩
      exact ⟨entry.toNat, List.mem_range'_1.mpr ⟨hbegin, by omega⟩, UInt64.ofNat_toNat⟩
  split
  next h => exact List.count_eq_one_of_mem hnodup (hmem.mpr h)
  next h => exact List.count_eq_zero_of_not_mem (fun hin => h (hmem.mp hin))

/-- The entries of what is left of a task. -/
def leftEntries : Option RootBasketTask → Nat
  | none => 0
  | some task => task.entries.length

/-! ### One clip -/

/-- `result` is the part of `task` in `wanted`, with the number of entries cut off. -/
structure ClipsTo (wanted : Nat → Prop) (task : RootBasketTask)
    (result : Option RootBasketTask × UInt64) : Prop where
  proper : ∀ left, result.1 = some left → left.entryBegin.toNat ≤ left.entryEnd.toNat
  eventBase : ∀ left, result.1 = some left → left.eventBase = task.eventBase
  covers : ∀ uri entry, (∃ left, result.1 = some left ∧ left.covers uri entry) ↔
    task.covers uri entry ∧ wanted entry
  skipped : UInt64.ofNat (leftEntries result.1) + result.2 = UInt64.ofNat task.entries.length

/-- Nothing is cut off. -/
theorem ClipsTo.all {wanted : Nat → Prop} {task : RootBasketTask}
    (hproper : task.entryBegin.toNat ≤ task.entryEnd.toNat) (h : ∀ entry, wanted entry) :
    ClipsTo wanted task (some task, 0) where
  proper left hleft := by
    cases hleft
    exact hproper
  eventBase left hleft := by
    cases hleft
    rfl
  covers uri entry := by
    constructor
    · rintro ⟨left, hleft, hcovers⟩
      cases hleft
      exact ⟨hcovers, h entry⟩
    · rintro ⟨hcovers, -⟩
      exact ⟨task, rfl, hcovers⟩
  skipped := UInt64.add_zero _

/-- Everything is cut off. -/
theorem ClipsTo.nothing {wanted : Nat → Prop} {task : RootBasketTask}
    (hproper : task.entryBegin.toNat ≤ task.entryEnd.toNat)
    (h : ∀ entry, task.entryBegin.toNat ≤ entry → entry < task.entryEnd.toNat → ¬ wanted entry) :
    ClipsTo wanted task (none, task.entryEnd - task.entryBegin) where
  proper left hleft := by cases hleft
  eventBase left hleft := by cases hleft
  covers uri entry := by
    constructor
    · rintro ⟨left, hleft, -⟩
      cases hleft
    · rintro ⟨⟨-, hbegin, hend⟩, hwanted⟩
      exact absurd hwanted (h entry hbegin hend)
  skipped := by
    rw [task.ofNat_length_entries hproper]
    exact UInt64.zero_add _

/-- The task is cut down to `[first, last)`. -/
theorem ClipsTo.range {wanted : Nat → Prop} {task : RootBasketTask} {first last : UInt64}
    (hproper : task.entryBegin.toNat ≤ task.entryEnd.toNat)
    (hrange : first.toNat ≤ last.toNat)
    (h : ∀ entry, (first.toNat ≤ entry ∧ entry < last.toNat) ↔
      (task.entryBegin.toNat ≤ entry ∧ entry < task.entryEnd.toNat) ∧ wanted entry) :
    ClipsTo wanted task
      (some { task with entryBegin := first, entryEnd := last },
        (first - task.entryBegin) + (task.entryEnd - last)) where
  proper left hleft := by
    cases hleft
    exact hrange
  eventBase left hleft := by
    cases hleft
    rfl
  covers uri entry := by
    constructor
    · rintro ⟨left, hleft, huri, hin⟩
      cases hleft
      obtain ⟨htask, hwanted⟩ := (h entry).mp hin
      exact ⟨⟨huri, htask⟩, hwanted⟩
    · rintro ⟨⟨huri, htask⟩, hwanted⟩
      exact ⟨_, rfl, huri, (h entry).mpr ⟨htask, hwanted⟩⟩
  skipped := by
    rw [task.ofNat_length_entries hproper]
    unfold leftEntries
    dsimp only
    rw [RootBasketTask.ofNat_length_entries hrange]
    dsimp only
    grind

/-- An exclusive bound behind an inclusive one, where it is a word. -/
theorem toNat_add_one {upper : UInt64} (h : upper ≠ uint64Max) :
    (upper + 1).toNat = upper.toNat + 1 := by
  have hlt := upper.toNat_lt
  have hne : upper.toNat ≠ 2 ^ 64 - 1 := fun heq => h (UInt64.toNat_inj.mp heq)
  refine toNat_add_of_lt ?_
  change upper.toNat + 1 < 2 ^ 64
  omega

/-- `upper == max ? end : min(end, upper + 1)` ends what lies below `end` and not above
    `upper`. -/
theorem lt_upperExclusive (entryEnd upper : UInt64) (entry : Nat) :
    entry < (if upper = uint64Max then entryEnd else stdMin entryEnd (upper + 1)).toNat ↔
      entry < entryEnd.toNat ∧ entry ≤ upper.toNat := by
  split
  next h =>
    have hlt := entryEnd.toNat_lt
    rw [h, toNat_uint64Max]
    omega
  next h =>
    rw [toNat_stdMin, toNat_add_one h]
    omega

theorem clipToEntryRange_clipsTo {task : RootBasketTask}
    (hproper : task.entryBegin.toNat ≤ task.entryEnd.toNat) :
    ClipsTo (InEntryRange global) task (clipToEntryRange global task) := by
  unfold clipToEntryRange
  by_cases hknown : global.localEntryRange.known = true
  · rw [if_pos hknown]
    dsimp only
    have hupper := lt_upperExclusive task.entryEnd global.localEntryRange.upper
    generalize (if global.localEntryRange.upper = uint64Max then task.entryEnd
      else stdMin task.entryEnd (global.localEntryRange.upper + 1)) = upperExclusive at hupper ⊢
    have hlower := toNat_stdMax task.entryBegin global.localEntryRange.lower
    generalize stdMax task.entryBegin global.localEntryRange.lower = entryBegin at hlower ⊢
    have hin : ∀ entry, (entryBegin.toNat ≤ entry ∧ entry < upperExclusive.toNat) ↔
        (task.entryBegin.toNat ≤ entry ∧ entry < task.entryEnd.toNat) ∧
          InEntryRange global entry := by
      intro entry
      unfold InEntryRange
      rw [hupper entry, hlower]
      constructor
      · rintro ⟨hbegin, hend, hle⟩
        exact ⟨⟨by omega, hend⟩, fun _ => ⟨by omega, hle⟩⟩
      · rintro ⟨⟨hbegin, hend⟩, hrange⟩
        obtain ⟨hge, hle⟩ := hrange hknown
        exact ⟨by omega, hend, hle⟩
    by_cases hempty : upperExclusive ≤ entryBegin
    · rw [if_pos hempty]
      rw [UInt64.le_iff_toNat_le] at hempty
      refine ClipsTo.nothing hproper ?_
      intro entry hbegin hend hwanted
      obtain ⟨hge, hlt⟩ := (hin entry).mpr ⟨⟨hbegin, hend⟩, hwanted⟩
      omega
    · rw [if_neg hempty]
      rw [UInt64.le_iff_toNat_le] at hempty
      exact ClipsTo.range hproper (by omega) hin
  · rw [if_neg hknown]
    exact ClipsTo.all hproper (fun _ h => absurd h hknown)

theorem clipToEventRange_clipsTo {task : RootBasketTask}
    (hproper : task.entryBegin.toNat ≤ task.entryEnd.toNat) (hfits : EventEndFits global task) :
    ClipsTo (InEventRange global task.eventBase) task (clipToEventRange global task) := by
  unfold clipToEventRange
  by_cases hrange : global.hasEventRange = true
  · rw [if_pos hrange]
    dsimp only
    have hupper := lt_upperExclusive (task.eventBase + task.entryEnd) global.eventUpper
    generalize (if global.eventUpper = uint64Max then task.eventBase + task.entryEnd
      else stdMin (task.eventBase + task.entryEnd) (global.eventUpper + 1)) =
        wantedEnd at hupper ⊢
    have hlower := toNat_stdMax (task.eventBase + task.entryBegin) global.eventLower
    generalize stdMax (task.eventBase + task.entryBegin) global.eventLower =
      wantedBegin at hlower ⊢
    rcases hfits hrange with hend | ⟨hbegin, hmisses⟩
    · rw [toNat_add_of_lt hend] at hupper
      rw [toNat_add_of_lt (by omega)] at hlower
      -- Shifting a wanted event by the base gives a wanted entry.
      have hin : ∀ entry,
          (wantedBegin.toNat ≤ task.eventBase.toNat + entry ∧
            task.eventBase.toNat + entry < wantedEnd.toNat) ↔
          (task.entryBegin.toNat ≤ entry ∧ entry < task.entryEnd.toNat) ∧
            InEventRange global task.eventBase entry := by
        intro entry
        unfold InEventRange
        rw [hupper, hlower]
        constructor
        · rintro ⟨hbegin, hlt, hle⟩
          exact ⟨⟨by omega, by omega⟩, fun _ => ⟨by omega, hle⟩⟩
        · rintro ⟨⟨hbegin, hlt⟩, hwanted⟩
          obtain ⟨hge, hle⟩ := hwanted hrange
          exact ⟨by omega, by omega, hle⟩
      by_cases hempty : wantedEnd ≤ wantedBegin
      · rw [if_pos hempty]
        rw [UInt64.le_iff_toNat_le] at hempty
        refine ClipsTo.nothing hproper ?_
        intro entry hbegin hlt hwanted
        obtain ⟨hge, hlt'⟩ := (hin entry).mpr ⟨⟨hbegin, hlt⟩, hwanted⟩
        omega
      · rw [if_neg hempty]
        rw [UInt64.le_iff_toNat_le] at hempty
        have hfirst : (wantedBegin - task.eventBase).toNat =
            wantedBegin.toNat - task.eventBase.toNat := toNat_sub_of_le (by omega)
        have hlast : (wantedEnd - task.eventBase).toNat =
            wantedEnd.toNat - task.eventBase.toNat := toNat_sub_of_le (by omega)
        refine ClipsTo.range hproper (by omega) ?_
        intro entry
        rw [← hin entry, hfirst, hlast]
        omega
    · -- The end wraps, and so falls behind the begin.
      have hskip : wantedEnd ≤ wantedBegin := by
        rw [UInt64.le_iff_toNat_le]
        rw [toNat_add_of_lt hbegin] at hlower
        by_contra hlt
        have hwanted := (hupper (wantedEnd.toNat - 1)).mp (by omega)
        have hsum : (task.eventBase + task.entryEnd).toNat ≤
            task.eventBase.toNat + task.entryEnd.toNat := by
          rw [UInt64.toNat_add]
          exact Nat.mod_le _ _
        refine hmisses (wantedEnd.toNat - 1 - task.eventBase.toNat) (by omega) (by omega) ?_
        intro _
        omega
      rw [if_pos hskip]
      exact ClipsTo.nothing hproper hmisses
  · rw [if_neg hrange]
    exact ClipsTo.all hproper (fun _ h => absurd h hrange)

/-! ### Both clips -/

/-- Two clips in a row, with their counts added. -/
theorem ClipsTo.trans {wanted also : Nat → Prop} {task left : RootBasketTask}
    {skipped : UInt64} {result : Option RootBasketTask × UInt64}
    (hfirst : ClipsTo wanted task (some left, skipped)) (hsecond : ClipsTo also left result) :
    ClipsTo (fun entry => wanted entry ∧ also entry) task
      (result.1, skipped + result.2) where
  proper := hsecond.proper
  eventBase rest hrest := (hsecond.eventBase rest hrest).trans (hfirst.eventBase left rfl)
  covers uri entry := by
    rw [hsecond.covers]
    have hleft := hfirst.covers uri entry
    simp only [Option.some.injEq, exists_eq_left'] at hleft
    rw [hleft, and_assoc]
  skipped := by
    have hleft := hfirst.skipped
    have hrest := hsecond.skipped
    dsimp only [leftEntries] at hleft hrest ⊢
    rw [← hleft, ← hrest]
    grind

/-- **Clipping a claimed task** keeps its entries in both ranges and counts the others. -/
theorem clipTask_clipsTo {task : RootBasketTask}
    (hproper : task.entryBegin.toNat ≤ task.entryEnd.toNat) (hfits : EventEndFits global task) :
    ClipsTo (fun entry => InEventRange global task.eventBase entry ∧ InEntryRange global entry)
      task (clipTask global task) := by
  have hfirst := clipToEventRange_clipsTo global hproper hfits
  unfold clipTask
  cases hclip : clipToEventRange global task with
  | mk left skipped =>
    rw [hclip] at hfirst
    cases left with
    | none =>
      refine ⟨hfirst.proper, hfirst.eventBase, ?_, hfirst.skipped⟩
      intro uri entry
      have hnone := hfirst.covers uri entry
      constructor
      · rintro ⟨left, hleft, -⟩
        cases hleft
      · rintro ⟨hcovers, hevent, -⟩
        exact hnone.mpr ⟨hcovers, hevent⟩
    | some left =>
      exact hfirst.trans (clipToEntryRange_clipsTo global (hfirst.proper left rfl))

end RootLake.Dataset

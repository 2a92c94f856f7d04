/-
  RootLake/Dataset/SharedScan.lean
  ================================
  **The scan of all workers under a row limit.**

  The workers of a scan share the group counter, which hands every group to one of them,
  and the number of emitted rows, from which each row that passes the filters is reserved.
  A round of the output loop with room for one row reserves at most once, so rounds of
  different workers interleave as their accesses to the shared counters do.

  Without a limit a round does what `ScanTrace` says.  With one, it does the same until its
  row is refused, and then ends the call.  The budget rule gives the number of rows of the
  whole scan: all there are, or as many as the limit allows.
-/
import RootLake.Dataset.ScanExactlyOnce
import RootLake.Lib.Budget
import Mathlib.Algebra.Order.BigOperators.Group.Finset

namespace RootLake.Dataset

open Ieee Batch Budget

/-- The number of rows a query may emit. -/
def rowBudget (rowLimit : UInt64) : Option Nat :=
  if rowLimit = uint64Max then none else some rowLimit.toNat

/-- The counters agree with `n` reserved rows. -/
def Granted (rowLimit : UInt64) (counters : DatasetCounters) (n : Nat) : Prop :=
  if rowLimit = uint64Max then counters.stopRequested = false
  else counters.emittedRows.toNat = n ∧ n ≤ rowLimit.toNat ∧
    (counters.stopRequested = true → n = rowLimit.toNat)

theorem Granted.le {rowLimit : UInt64} {counters : DatasetCounters} {n most : Nat}
    (h : Granted rowLimit counters n) (hbudget : rowBudget rowLimit = some most) : n ≤ most := by
  unfold Granted at h
  unfold rowBudget at hbudget
  split at hbudget
  next => cases hbudget
  next hlimited =>
    rw [if_neg hlimited] at h
    cases hbudget
    exact h.2.1

/-- Counters that differ in nothing a reservation reads. -/
structure SameBudget (c c' : DatasetCounters) : Prop where
  emittedRows : c'.emittedRows = c.emittedRows
  stopRequested : c'.stopRequested = c.stopRequested

theorem Granted.congr {rowLimit : UInt64} {c c' : DatasetCounters} {n : Nat}
    (h : Granted rowLimit c n) (hsame : SameBudget c c') : Granted rowLimit c' n := by
  unfold Granted at h ⊢
  rw [hsame.emittedRows, hsame.stopRequested]
  exact h

/-- **Step lemma** of the budget: rows are granted and counted, and none only if the budget is
    used up. -/
theorem reserveOutputRows_spec {global : DatasetGlobalState} {counters : DatasetCounters} {n : Nat}
    {requested : UInt64} (hrequested : requested ≠ 0) (h : Granted global.rowLimit counters n) :
    (reserveOutputRows global counters requested).1.toNat ≤ requested.toNat ∧
      Granted global.rowLimit (reserveOutputRows global counters requested).2
        (n + (reserveOutputRows global counters requested).1.toNat) ∧
      ((reserveOutputRows global counters requested).1 = 0 →
        rowBudget global.rowLimit = some n) := by
  have hzero : (0 : UInt64).toNat = 0 := rfl
  unfold Granted at h
  unfold reserveOutputRows rowBudget Granted
  by_cases hlimit : global.rowLimit = uint64Max
  · rw [if_pos hlimit] at h
    simp only [hlimit, h, hrequested, if_true, if_false, false_or, Bool.false_eq_true]
    exact ⟨Nat.le_refl _, trivial, fun hnone => hnone.elim⟩
  · rw [if_neg hlimit] at h
    obtain ⟨hemitted, hle, hstop⟩ := h
    simp only [hlimit, hrequested, if_false, false_or]
    by_cases hstopped : counters.stopRequested = true
    · simp only [hstopped, if_true, hzero, Nat.add_zero]
      exact ⟨Nat.zero_le _, ⟨hemitted, hle, fun _ => hstop hstopped⟩,
        fun _ => congrArg some (hstop hstopped).symm⟩
    · rw [if_neg hstopped]
      by_cases hroom : counters.emittedRows < global.rowLimit
      · rw [if_pos hroom]
        have hlt : n < global.rowLimit.toNat := by
          rw [← hemitted]
          exact UInt64.lt_iff_toNat_lt.mp hroom
        have hlimitLt := global.rowLimit.toNat_lt
        have hgranted : (stdMin (global.rowLimit - counters.emittedRows) requested).toNat =
            min (global.rowLimit.toNat - n) requested.toNat := by
          rw [toNat_stdMin, toNat_sub_of_le (by omega), hemitted]
        have hpositive : 0 < requested.toNat := by
          by_contra hnot
          exact hrequested (UInt64.toNat_inj.mp (by omega))
        have hnext : (counters.emittedRows +
            stdMin (global.rowLimit - counters.emittedRows) requested).toNat =
              n + (stdMin (global.rowLimit - counters.emittedRows) requested).toNat := by
          rw [toNat_add_of_lt (by omega), hemitted]
        dsimp only
        refine ⟨by omega, ⟨hnext, by omega, ?_⟩, ?_⟩
        · intro hreached
          have hreached := UInt64.le_iff_toNat_le.mp (of_decide_eq_true hreached)
          omega
        · intro hnone
          have hnone := congrArg UInt64.toNat hnone
          omega
      · rw [if_neg hroom]
        have hequal : n = global.rowLimit.toNat := by
          have hge := UInt64.le_iff_toNat_le.mp (UInt64.not_lt.mp hroom)
          omega
        exact ⟨Nat.zero_le _, ⟨hemitted, hle, fun _ => hequal⟩, fun _ => congrArg some hequal.symm⟩

section

variable {Filter : Type} {env : ScanEnvironment Filter}

/-! ### A round with room for one row -/

/-- Claiming reads no counter. -/
theorem claimLoop_counters (steps : Nat) :
    ∀ (c c₀ : DatasetCounters) (l : DatasetLocalState env.indexCount),
      ∃ c', SameBudget c c' ∧
        claimLoop env steps c l =
          (claimLoop env steps c₀ l).map fun claimed => (claimed.1, c', claimed.2.2) := by
  induction steps with
  | zero => exact fun c _ _ => ⟨c, ⟨rfl, rfl⟩, rfl⟩
  | succ steps ih =>
    intro c c₀ l
    rw [claimLoop, claimLoop]
    cases drawGroup l with
    | none => exact ⟨c, ⟨rfl, rfl⟩, rfl⟩
    | some l =>
      dsimp only
      cases clipTask env.global (l.cursor.task env.global) with
      | mk clipped skipped =>
        cases clipped with
        | none =>
          obtain ⟨c', ⟨hemitted, hstop⟩, heq⟩ :=
            ih { c with skippedEntries := c.skippedEntries + skipped }
              { c₀ with skippedEntries := c₀.skippedEntries + skipped }
              { l with cursor := l.cursor.advance }
          exact ⟨c', ⟨hemitted, hstop⟩, heq⟩
        | some task =>
          refine ⟨{ c with skippedEntries := c.skippedEntries + skipped }, ⟨rfl, rfl⟩, ?_⟩
          dsimp only
          cases openTaskFile env { l with cursor := l.cursor.advance } task <;> rfl

/-- **Emission with room for one row**: events of the page are performed up to the first row,
    and that row is granted or refused. -/
inductive EmittedOne (page : EntryPage env.indexCount) (l : DatasetLocalState env.indexCount)
    (n : Nat) :
    List (List OutputCell) × DatasetCounters × DatasetLocalState env.indexCount × Bool → Prop where
  | emitted {count : Nat} {counters : DatasetCounters} :
      (l.valueOffset < page.values.length → 0 < count) →
      (rowsOf (((pageEvents env page).drop l.valueOffset).take count)).length ≤ 1 →
      Granted env.global.rowLimit counters
        (n + (rowsOf (((pageEvents env page).drop l.valueOffset).take count)).length) →
      EmittedOne page l n (rowsOf (((pageEvents env page).drop l.valueOffset).take count), counters,
        { l with valueOffset := l.valueOffset + count }, false)
  | refused {counters : DatasetCounters} {l' : DatasetLocalState env.indexCount} :
      rowBudget env.global.rowLimit = some n → Granted env.global.rowLimit counters n →
      EmittedOne page l n ([], counters, l', true)

theorem emitValues_one {page : EntryPage env.indexCount} :
    ∀ {steps n : Nat} {counters : DatasetCounters} {l : DatasetLocalState env.indexCount},
      Granted env.global.rowLimit counters n → Buffered env l page →
      steps = page.values.length - l.valueOffset →
      EmittedOne page l n (emitValues env steps 1 counters l) := by
  intro steps
  induction steps with
  | zero =>
    intro n counters l hgranted hbuf hsteps
    rw [emitValues]
    exact @EmittedOne.emitted _ env page l n 0 counters (fun h => absurd h (by omega)) (Nat.zero_le _)
      hgranted
  | succ steps ih =>
    intro n counters l hgranted hbuf hsteps
    have hlt : l.valueOffset < page.values.length := by omega
    have hdrop := pageEvents_drop_cons env hlt
    rw [emitValues]
    simp only [hbuf.bufferedRow_eq hlt]
    by_cases hpass : valuePasses env page page.values[l.valueOffset] = true
    · have hpass' : passesFilters env.evaluate env.bind env.elementFilters
          (valueRow env page page.values[l.valueOffset]) = true := hpass
      have hrows : rowsOf (((pageEvents env page).drop l.valueOffset).take 1) =
          [emitProjectedRow env.bind env.outputColumnIds
            (valueRow env page page.values[l.valueOffset])] := by
        rw [hdrop, List.take_succ_cons, valueEvent, if_pos hpass]
        rfl
      simp only [hpass', Bool.not_true, Bool.false_eq_true, if_false]
      obtain ⟨hgrant, hnext, hnone⟩ :=
        reserveOutputRows_spec (by decide : (1 : UInt64) ≠ 0) hgranted
      generalize reserveOutputRows env.global counters 1 = reserved at hgrant hnext hnone ⊢
      obtain ⟨granted, counters'⟩ := reserved
      dsimp only at hgrant hnext hnone ⊢
      by_cases hzero : granted = 0
      · rw [if_pos hzero]
        refine .refused (hnone hzero) ?_
        rw [hzero] at hnext
        exact hnext
      · rw [if_neg hzero]
        have hstop : emitValues env steps 0 counters' { l with valueOffset := l.valueOffset + 1 } =
            ([], counters', { l with valueOffset := l.valueOffset + 1 }, false) := by
          cases steps <;> rfl
        rw [hstop, ← hrows]
        refine .emitted (fun _ => Nat.one_pos) ?_ ?_
        · rw [hrows]
          exact Nat.le_refl 1
        · rw [hrows]
          have hunit : (1 : UInt64).toNat = 1 := rfl
          have hpositive : granted.toNat ≠ 0 := fun h => hzero (UInt64.toNat_inj.mp h)
          have hlength : granted.toNat = 1 := by omega
          rw [hlength] at hnext
          exact hnext
    · have hpass' : passesFilters env.evaluate env.bind env.elementFilters
          (valueRow env page page.values[l.valueOffset]) = false := by
        simpa [valuePasses] using hpass
      simp only [hpass', Bool.not_false, if_true]
      have hrest := @ih n counters _ hgranted (hbuf.setOffset (l.valueOffset + 1))
        (by dsimp only; omega)
      generalize emitValues env steps 1 counters { l with valueOffset := l.valueOffset + 1 } = result
        at hrest ⊢
      cases hrest with
      | refused hbudget hnext => exact .refused hbudget hnext
      | emitted hprogress hfits hnext =>
        rename_i count counters'
        have hrows : rowsOf (((pageEvents env page).drop l.valueOffset).take (count + 1)) =
            rowsOf (((pageEvents env page).drop (l.valueOffset + 1)).take count) := by
          rw [hdrop, List.take_succ_cons, valueEvent, if_neg hpass]
          rfl
        dsimp only at hfits hnext ⊢
        rw [← hrows] at hfits hnext ⊢
        rw [Nat.add_assoc, Nat.add_comm 1 count]
        exact .emitted (fun _ => Nat.succ_pos count) hfits hnext

/-! ### Rounds share the budget -/

theorem ScanWork.counters {s : ScanState env} {events : List ScanEvent} (h : ScanWork env s events)
    {counters : DatasetCounters} (hstop : counters.stopRequested = false) :
    ScanWork env (counters, s.2) events := by
  cases h with
  | between _ hidle hclosed hres => exact .between hstop hidle hclosed hres
  | inside _ hhas hbuf hfile => exact .inside hstop hhas hbuf hfile

/-- The work of a worker, whatever the shared counters say. -/
def MemberWork (env : ScanEnvironment Filter) (l : DatasetLocalState env.indexCount)
    (events : List ScanEvent) : Prop :=
  ScanWork env ({}, l) events

/-- What a round with room for one row does. -/
inductive RoundOne (env : ScanEnvironment Filter) (n : Nat) (events : List ScanEvent) :
    Except IOException (Iteration (List OutputCell) (ScanState env)) → Prop where
  | failed {e : IOException} : outcome events = .error e → RoundOne env n events (.error e)
  | more {rows : List (List OutputCell)} {counters : DatasetCounters}
      {l : DatasetLocalState env.indexCount} {past rest : List ScanEvent} :
      past ≠ [] → events = past ++ rest → rowsOf past = rows →
      Granted env.global.rowLimit counters (n + rows.length) → MemberWork env l rest →
      RoundOne env n events (.ok (.more rows (counters, l)))
  | last {counters : DatasetCounters} {l : DatasetLocalState env.indexCount} :
      Granted env.global.rowLimit counters n →
      events = [] ∨ rowBudget env.global.rowLimit = some n →
      RoundOne env n events (.ok (.last [] (counters, l)))

theorem loadAndEmit_roundOne {n : Nat} {counters : DatasetCounters}
    {l : DatasetLocalState env.indexCount} {page : EntryPage env.indexCount}
    (hgranted : Granted env.global.rowLimit counters n) (hhas : l.hasTask = true)
    (hbuf : Buffered env l page) (hfile : l.openFile = taskFile l.currentTask) :
    RoundOne env n (insideEvents env l page) (loadAndEmit env 1 counters l) := by
  have hload := load_loaded hhas hbuf hfile
  unfold loadAndEmit
  dsimp only
  generalize (if loadedValues env l ≤ l.valueOffset then loadNextEntry env l
    else .ok (true, l)) = loaded at hload ⊢
  cases hload with
  | failed hfail => exact .failed hfail
  | finished hinside hwork =>
    rw [hinside]
    exact .more (List.cons_ne_nil .idle []) (List.singleton_append).symm rfl
      (hgranted.congr ⟨rfl, rfl⟩) (hwork {} rfl)
  | ready hinside hhas' hbuf' hfile' hleft =>
    rename_i l' page'
    rw [hinside]
    have hemit := emitValues_one hgranted hbuf' rfl
    dsimp only
    rw [hbuf'.loadedValues_eq]
    generalize emitValues env _ 1 counters l' = result at hemit ⊢
    cases hemit with
    | refused hbudget hnext => exact .last hnext (Or.inr hbudget)
    | emitted hprogress hfits hnext =>
      rename_i count counters'
      refine @RoundOne.more _ env n _ _ _ _ (((pageEvents env page').drop l'.valueOffset).take count)
        _ ?_ ?_ rfl hnext (ScanWork.inside rfl hhas' (hbuf'.setOffset (l'.valueOffset + count)) hfile')
      · rw [pageEvents_drop_cons env hleft]
        obtain ⟨count', rfl⟩ := Nat.exists_eq_succ_of_ne_zero (Nat.ne_of_gt (hprogress hleft))
        exact List.cons_ne_nil _ _
      · exact insideEvents_split l' page' count

theorem scanIteration_roundOne {n : Nat} {counters : DatasetCounters}
    {l : DatasetLocalState env.indexCount} {events : List ScanEvent}
    (hgranted : Granted env.global.rowLimit counters n) (hwork : MemberWork env l events) :
    RoundOne env n events (scanIteration env 1 (counters, l)) := by
  unfold MemberWork at hwork
  unfold scanIteration
  cases hwork with
  | inside _ hhas hbuf hfile =>
    simp only [hhas, if_true]
    exact loadAndEmit_roundOne hgranted hhas hbuf hfile
  | between hstop hidle hclosed hres =>
    rename_i page
    simp only [hidle, Bool.false_eq_true, if_false]
    obtain ⟨counters', hsame, hclaim⟩ :=
      claimLoop_counters ((remainingTasks env l).length + 1) counters {} l
    have hclaimed : TaskClaimed l page (claimTask env {} l) :=
      claimTask_claimed hstop hidle hclosed hres
    unfold claimTask at hclaimed ⊢
    rw [hclaim]
    generalize claimLoop env _ {} l = claimed at hclaimed ⊢
    cases hclaimed with
    | failed hfail => exact .failed hfail
    | exhausted _ _ _ _ hnil _ =>
      refine .last (hgranted.congr hsame) (Or.inl ?_)
      rw [hnil]
      rfl
    | claimed _ hhas hoff hbuf hclosed' hfile hevents =>
      have hround := loadAndEmit_roundOne (hgranted.congr hsame) hhas hbuf hfile
      rw [claimed_insideEvents hoff hclosed' hevents] at hround
      exact hround

/-- **The workers share the row budget.** -/
theorem scanIteration_shares (env : ScanEnvironment Filter) :
    Shares (fun counters l => scanIteration env 1 (counters, l)) (MemberWork env)
      (Granted env.global.rowLimit) (rowBudget env.global.rowLimit) := by
  constructor
  · exact fun hgranted hbudget => hgranted.le hbudget
  · intro counters l n events e hwork hgranted hround hquiet
    have hone := scanIteration_roundOne hgranted hwork
    rw [hround] at hone
    cases hone with
    | failed hfail =>
      rw [outcome_of_quiet hquiet] at hfail
      cases hfail
  · intro counters l n events rows counters' l' hwork hgranted hround
    have hone := scanIteration_roundOne hgranted hwork
    rw [hround] at hone
    cases hone with
    | more hpast hevents hrows hnext hwork' => exact ⟨_, _, hpast, hevents, hrows, hnext, hwork'⟩
  · intro counters l n events rows counters' l' hwork hgranted hround
    have hone := scanIteration_roundOne hgranted hwork
    rw [hround] at hone
    cases hone with
    | last hnext hend =>
      refine ⟨rfl, hnext, hend.imp_left ?_⟩
      rintro rfl
      rfl

/-! ### The whole scan -/

/-- The workers at the start; `assign` says which groups the shared counter will hand to each. -/
def startScan (env : ScanEnvironment Filter) {W : Type} (assign : W → List RootFileTaskGroup) :
    Team W (List OutputCell) DatasetCounters (DatasetLocalState env.indexCount) where
  shared := {}
  members w := { upcomingGroups := assign w }
  finished _ := false
  rows := []

/-- Rounds of the workers in the given order, until each has returned an empty chunk. -/
def scanRounds (env : ScanEnvironment Filter) {W : Type} [DecidableEq W]
    (assign : W → List RootFileTaskGroup) (schedule : List W) :
    Except IOException
      (Team W (List OutputCell) DatasetCounters (DatasetLocalState env.indexCount)) :=
  (startScan env assign).run (fun counters l => scanIteration env 1 (counters, l)) schedule

/-- Whatever the order in which the workers run, the scan emits `rows` rows once each of them has
    had enough rounds. -/
def ScanEmits (env : ScanEnvironment Filter) {W : Type} [DecidableEq W]
    (assign : W → List RootFileTaskGroup) (rows : Nat) : Prop :=
  ∃ bound, ∀ schedule : List W, (∀ w, bound < schedule.count w) →
    ∃ team, scanRounds env assign schedule = .ok team ∧ team.rows.length = rows

/-- **Run lemma**: the scan emits what the workers have to emit, or as much as the limit allows. -/
theorem scan_emits (env : ScanEnvironment Filter) {W : Type} [Fintype W] [DecidableEq W]
    (assign : W → List RootFileTaskGroup)
    (hquiet : ∀ w, Quiet (taskEvents env none {} (groupTasks env (assign w)))) :
    ScanEmits env assign (allowed (rowBudget env.global.rowLimit)
      (∑ w, (rowsOf (taskEvents env none {} (groupTasks env (assign w)))).length)) := by
  let events : W → List ScanEvent := fun w => taskEvents env none {} (groupTasks env (assign w))
  refine ⟨∑ w, (events w).length, fun schedule henough => ?_⟩
  have hstart : (startScan env assign).Left (MemberWork env) (Granted env.global.rowLimit)
      (rowBudget env.global.rowLimit) (∑ w, (rowsOf (events w)).length) events := by
    refine ⟨?_, hquiet, fun w _ => scanWork_start rfl (assign w), ?_, ?_⟩
    · unfold Granted
      split
      next => rfl
      next => exact ⟨rfl, Nat.zero_le _, fun h => by cases h⟩
    · intro w hfinished
      cases hfinished
    · exact Nat.zero_add _
  refine (scanIteration_shares env).run_eq hstart fun w => ?_
  have hle : (events w).length ≤ ∑ w, (events w).length :=
    Finset.single_le_sum (fun v _ => Nat.zero_le (events v).length) (Finset.mem_univ w)
  exact Nat.lt_of_le_of_lt hle (henough w)

end

end RootLake.Dataset

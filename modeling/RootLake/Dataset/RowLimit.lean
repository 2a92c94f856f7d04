/-
  RootLake/Dataset/RowLimit.lean
  ==============================
  **The row limit under every interleaving.**

  The workers of a scan run `Scan` again and again until it returns an empty chunk.  What
  they do between two reservations concerns nobody else; the accesses of a reservation
  interleave.  A worker keeps the rows it has emitted, so that a row that was granted can
  be followed until it is in a chunk.
-/
import RootLake.Dataset.ReserveRows
import RootLake.Dataset.CountAgreement
import RootLake.Lib.Runs
import Mathlib.Tactic.FinCases

namespace RootLake.Dataset

open Ieee Batch Budget Runs

/-! ## 1. The workers -/

/-- Where a worker stands in `Scan`. -/
inductive ThreadPoint where
  | scanning
  | reserving (row : DatasetRow) (point : ReservePoint)
  | finished

/-- A worker, with the rows in its current chunk and all rows it has emitted. -/
structure ScanThread (indexCount : Nat) where
  state : DatasetLocalState indexCount
  point : ThreadPoint := .scanning
  outputCount : Nat := 0
  emitted : List (List OutputCell) := []

/-- The end of a `Scan` call: a worker that returns an empty chunk is not asked again. -/
def ScanThread.endCall {indexCount : Nat} (thread : ScanThread indexCount) :
    ScanThread indexCount :=
  if thread.outputCount = 0 then { thread with point := .finished }
  else { thread with point := .scanning, outputCount := 0 }

/-- How far a worker comes without a reservation. -/
inductive ScanHead where
  | last
  | idle
  | ask (row : DatasetRow)

section

variable {Filter : Type} (env : ScanEnvironment Filter)

/-- The inner loop of `Scan` up to the first value that passes the filters. -/
def seekValue : Nat → DatasetLocalState env.indexCount →
    Option DatasetRow × DatasetLocalState env.indexCount
  | 0, l => (none, l)
  | steps + 1, l =>
      let row := bufferedRow env l l.valueOffset
      let l := { l with valueOffset := l.valueOffset + 1 }
      if !passesFilters env.evaluate env.bind env.elementFilters row then seekValue steps l
      else (some row, l)

/-- The output loop up to a reservation. -/
def scanHead (counters : DatasetCounters) (l : DatasetLocalState env.indexCount) :
    Except IOException (ScanHead × DatasetCounters × DatasetLocalState env.indexCount) :=
  let claimed := if l.hasTask then .ok (true, counters, l) else claimTask env counters l
  match claimed with
  | .error e => .error e
  | .ok (false, counters, l) => .ok (.last, counters, l)
  | .ok (true, counters, l) =>
      let loaded :=
        if loadedValues env l ≤ l.valueOffset then loadNextEntry env l else .ok (true, l)
      match loaded with
      | .error e => .error e
      | .ok (false, l) =>
          .ok (.idle, { counters with completedTasks := counters.completedTasks + 1 },
            { l with hasTask := false })
      | .ok (true, l) =>
          match seekValue env (loadedValues env l - l.valueOffset) l with
          | (none, l) => .ok (.idle, counters, l)
          | (some row, l) => .ok (.ask row, counters, l)

/-- A granted row goes into the chunk; a full chunk ends the call. -/
def emitRow (thread : ScanThread env.indexCount) (row : DatasetRow) :
    ScanThread env.indexCount :=
  let thread :=
    { thread with
      point := .scanning
      outputCount := thread.outputCount + 1
      emitted := thread.emitted ++ [emitProjectedRow env.bind env.outputColumnIds row] }
  if env.standardVectorSize ≤ thread.outputCount then thread.endCall else thread

/-- The next step of a worker. -/
def threadStep (succeeds : Bool) (counters : DatasetCounters)
    (thread : ScanThread env.indexCount) :
    Except IOException (DatasetCounters × ScanThread env.indexCount) :=
  match thread.point with
  | .finished => .ok (counters, thread)
  | .reserving row (.returned granted) =>
      .ok (counters, if granted = 0 then thread.endCall else emitRow env thread row)
  | .reserving row point =>
      let (counters, point) := reserveStep env.global 1 succeeds counters point
      .ok (counters, { thread with point := .reserving row point })
  | .scanning =>
      match scanHead env counters thread.state with
      | .error e => .error e
      | .ok (.last, counters, l) => .ok (counters, { thread with state := l }.endCall)
      | .ok (.idle, counters, l) => .ok (counters, { thread with state := l })
      | .ok (.ask row, counters, l) =>
          .ok (counters, { thread with state := l, point := .reserving row .checkStop })

/-- All workers with the counters they share. -/
structure ScanWorkers (W : Type) (indexCount : Nat) where
  counters : DatasetCounters
  threads : W → ScanThread indexCount

/-- The scan as a system: any worker takes the next step, and an exchange that can succeed does
    so or not. -/
def workersSystem {W : Type} [DecidableEq W] (assign : W → List RootFileTaskGroup) :
    System (ScanWorkers W env.indexCount) (W × Bool) where
  init s := s = { counters := {}, threads := fun w => { state := { upcomingGroups := assign w } } }
  step s label t :=
    ∃ counters thread, threadStep env label.2 s.counters (s.threads label.1) =
      .ok (counters, thread) ∧
        t = { counters := counters, threads := Function.update s.threads label.1 thread }

/-- One step of the scan, taken by the given worker; a worker that raises stops the run. -/
def nextWorkers {W : Type} [DecidableEq W] (s : ScanWorkers W env.indexCount)
    (label : W × Bool) : Option (ScanWorkers W env.indexCount) :=
  match threadStep env label.2 s.counters (s.threads label.1) with
  | .error _ => none
  | .ok (counters, thread) =>
      some { counters := counters, threads := Function.update s.threads label.1 thread }

/-! ## 2. Between two reservations -/

variable {env}

/-- What seeking finds among the events of the page. -/
inductive Sought (page : EntryPage env.indexCount) (l : DatasetLocalState env.indexCount) :
    Option DatasetRow × DatasetLocalState env.indexCount → Prop where
  | found {row : DatasetRow} {count : Nat} :
      rowsOf (((pageEvents env page).drop l.valueOffset).take count) =
        [emitProjectedRow env.bind env.outputColumnIds row] →
      Sought page l (some row, { l with valueOffset := l.valueOffset + count })
  | none {count : Nat} :
      rowsOf (((pageEvents env page).drop l.valueOffset).take count) = [] →
      Sought page l (none, { l with valueOffset := l.valueOffset + count })

theorem seekValue_sought {page : EntryPage env.indexCount} :
    ∀ {steps : Nat} {l : DatasetLocalState env.indexCount}, Buffered env l page →
      steps = page.values.length - l.valueOffset → Sought page l (seekValue env steps l) := by
  intro steps
  induction steps with
  | zero =>
    intro l hbuf hsteps
    exact @Sought.none _ env page l 0 rfl
  | succ steps ih =>
    intro l hbuf hsteps
    have hlt : l.valueOffset < page.values.length := by omega
    have hdrop := pageEvents_drop_cons env hlt
    rw [seekValue]
    simp only [hbuf.bufferedRow_eq hlt]
    by_cases hpass : valuePasses env page page.values[l.valueOffset] = true
    · have hpass' : passesFilters env.evaluate env.bind env.elementFilters
          (valueRow env page page.values[l.valueOffset]) = true := hpass
      rw [if_neg (by simp [hpass'])]
      refine @Sought.found _ env page l _ 1 ?_
      rw [hdrop, List.take_succ_cons, valueEvent, if_pos hpass]
      rfl
    · have hpass' : passesFilters env.evaluate env.bind env.elementFilters
          (valueRow env page page.values[l.valueOffset]) = false := by
        simpa [valuePasses] using hpass
      rw [if_pos (by simp [hpass'])]
      have hrest := ih (hbuf.setOffset (l.valueOffset + 1)) (by dsimp only; omega)
      have hrows (count : Nat) : rowsOf (((pageEvents env page).drop l.valueOffset).take (count + 1)) =
          rowsOf (((pageEvents env page).drop (l.valueOffset + 1)).take count) := by
        rw [hdrop, List.take_succ_cons, valueEvent, if_neg hpass]
        rfl
      generalize seekValue env steps { l with valueOffset := l.valueOffset + 1 } = result at hrest ⊢
      cases hrest with
      | found hone =>
        rename_i row count
        rw [← hrows] at hone
        dsimp only
        rw [Nat.add_assoc, Nat.add_comm 1 count]
        exact .found hone
      | none hnone =>
        rename_i count
        rw [← hrows] at hnone
        dsimp only
        rw [Nat.add_assoc, Nat.add_comm 1 count]
        exact .none hnone

/-- What a worker does up to a reservation. -/
inductive HeadDone (env : ScanEnvironment Filter) (counters : DatasetCounters)
    (events : List ScanEvent) :
    Except IOException (ScanHead × DatasetCounters × DatasetLocalState env.indexCount) → Prop where
  | failed {e : IOException} : outcome events = .error e → HeadDone env counters events (.error e)
  | last {counters' : DatasetCounters} {l : DatasetLocalState env.indexCount} :
      SameBudget counters counters' → events = [] → MemberWork env l [] →
      HeadDone env counters events (.ok (.last, counters', l))
  | idle {counters' : DatasetCounters} {l : DatasetLocalState env.indexCount}
      {past rest : List ScanEvent} :
      SameBudget counters counters' → events = past ++ rest → rowsOf past = [] →
      MemberWork env l rest → HeadDone env counters events (.ok (.idle, counters', l))
  | ask {row : DatasetRow} {counters' : DatasetCounters} {l : DatasetLocalState env.indexCount}
      {past rest : List ScanEvent} :
      SameBudget counters counters' → events = past ++ rest →
      rowsOf past = [emitProjectedRow env.bind env.outputColumnIds row] →
      MemberWork env l rest → HeadDone env counters events (.ok (.ask row, counters', l))

/-- The part of the head behind the claim. -/
theorem loadAndSeek_done {counters counters' : DatasetCounters}
    {l : DatasetLocalState env.indexCount} {page : EntryPage env.indexCount}
    (hsame : SameBudget counters counters') (hhas : l.hasTask = true) (hbuf : Buffered env l page)
    (hfile : l.openFile = taskFile l.currentTask) :
    HeadDone env counters (insideEvents env l page)
      (match if loadedValues env l ≤ l.valueOffset then loadNextEntry env l else .ok (true, l) with
      | .error e => .error e
      | .ok (false, l) =>
          .ok (.idle, { counters' with completedTasks := counters'.completedTasks + 1 },
            { l with hasTask := false })
      | .ok (true, l) =>
          match seekValue env (loadedValues env l - l.valueOffset) l with
          | (none, l) => .ok (.idle, counters', l)
          | (some row, l) => .ok (.ask row, counters', l)) := by
  have hload := load_loaded hhas hbuf hfile
  generalize (if loadedValues env l ≤ l.valueOffset then loadNextEntry env l
    else .ok (true, l)) = loaded at hload ⊢
  cases hload with
  | failed hfail => exact .failed hfail
  | finished hinside hwork =>
    rw [hinside]
    exact .idle ⟨hsame.emittedRows, hsame.stopRequested⟩ (List.singleton_append).symm rfl
      (hwork {} rfl)
  | ready hinside hhas' hbuf' hfile' hleft =>
    rename_i l' page'
    rw [hinside]
    have hseek := seekValue_sought hbuf' rfl
    dsimp only
    rw [hbuf'.loadedValues_eq]
    generalize seekValue env _ l' = result at hseek ⊢
    cases hseek with
    | found hone =>
      rename_i row count
      exact .ask hsame (insideEvents_split l' page' count) hone
        (ScanWork.inside rfl hhas' (hbuf'.setOffset (l'.valueOffset + count)) hfile')
    | none hnone =>
      rename_i count
      exact .idle hsame (insideEvents_split l' page' count) hnone
        (ScanWork.inside rfl hhas' (hbuf'.setOffset (l'.valueOffset + count)) hfile')

theorem scanHead_done {counters : DatasetCounters} {l : DatasetLocalState env.indexCount}
    {events : List ScanEvent} (hwork : MemberWork env l events) :
    HeadDone env counters events (scanHead env counters l) := by
  unfold MemberWork at hwork
  unfold scanHead
  cases hwork with
  | inside _ hhas hbuf hfile =>
    simp only [hhas, if_true]
    exact loadAndSeek_done ⟨rfl, rfl⟩ hhas hbuf hfile
  | between hstop hidle hclosed hres =>
    rename_i page
    simp only [hidle, Bool.false_eq_true, if_false]
    obtain ⟨counters', hsame, hclaim⟩ :=
      claimLoop_counters ((remainingTasks env l).length + 1) counters {} l
    have hclaimed : TaskClaimed l page (claimTask env {} l) :=
      claimTask_claimed hstop hidle hclosed hres
    unfold claimTask at hclaimed ⊢
    rw [hclaim]
    generalize claimLoop env _ {} l = claimed at hclaimed ⊢
    cases hclaimed with
    | failed hfail => exact .failed hfail
    | exhausted hstop' hidle' hres' hclosed' hnil hnil' =>
      rename_i l'
      refine .last hsame ?_ ?_
      · rw [hnil]
        rfl
      · have hwork : MemberWork env l' (taskEvents env l'.openFile page (claimedTasks env l')) :=
          .between rfl hidle' hclosed' hres'
        rw [hnil'] at hwork
        exact hwork
    | claimed _ hhas hoff hbuf hclosed' hfile hevents =>
      have hdone := loadAndSeek_done hsame hhas hbuf hfile
      rw [claimed_insideEvents hoff hclosed' hevents] at hdone
      exact hdone

/-! ## 3. One worker -/

variable (env)

namespace ScanThread

/-- Rows granted to a worker that are not in its chunk yet. -/
def pending {indexCount : Nat} (thread : ScanThread indexCount) : Nat :=
  match thread.point with
  | .reserving _ point => point.pending
  | _ => 0

/-- The row a worker asks for. -/
def asked (thread : ScanThread env.indexCount) : List (List OutputCell) :=
  match thread.point with
  | .reserving row _ => [emitProjectedRow env.bind env.outputColumnIds row]
  | _ => []

@[simp] theorem endCall_emitted {indexCount : Nat} (thread : ScanThread indexCount) :
    thread.endCall.emitted = thread.emitted := by
  unfold endCall
  split <;> rfl

@[simp] theorem endCall_state {indexCount : Nat} (thread : ScanThread indexCount) :
    thread.endCall.state = thread.state := by
  unfold endCall
  split <;> rfl

@[simp] theorem endCall_pending {indexCount : Nat} (thread : ScanThread indexCount) :
    thread.endCall.pending = 0 := by
  unfold endCall
  split <;> rfl

@[simp] theorem endCall_asked (thread : ScanThread env.indexCount) :
    thread.endCall.asked env = [] := by
  unfold endCall
  split <;> rfl

theorem endCall_not_reserving {indexCount : Nat} (thread : ScanThread indexCount)
    (row : DatasetRow) (point : ReservePoint) : thread.endCall.point ≠ .reserving row point := by
  unfold endCall
  split <;> exact fun h => by cases h

end ScanThread

/-- **The account of a worker** over `events`, when `n` rows have been granted in all: what it has
    emitted are the rows of the events behind it, as long as the budget was not used up. -/
structure ThreadInv (events : List ScanEvent) (n : Nat) (thread : ScanThread env.indexCount)
    (past rest : List ScanEvent) (delivered : List (List OutputCell)) : Prop where
  events : events = past ++ rest
  rows : rowsOf past = delivered ++ thread.asked env
  emitted : thread.emitted = delivered ∨
    rowBudget env.global.rowLimit = some n ∧ thread.emitted <+: delivered ∧ thread.pending = 0
  knows : ∀ row point, thread.point = .reserving row point →
    point.Knows env.global.rowLimit n ∧ point.pending ≤ 1
  work : thread.point ≠ .finished → MemberWork env thread.state rest
  ended : thread.point = .finished → rest = [] ∨ rowBudget env.global.rowLimit = some n

def ThreadKeeps (events : List ScanEvent) (n : Nat) (thread : ScanThread env.indexCount) : Prop :=
  ∃ past rest delivered, ThreadInv env events n thread past rest delivered

variable {env}

/-- Grants to others keep the account. -/
theorem ThreadKeeps.mono {events : List ScanEvent} {n n' : Nat}
    {thread : ScanThread env.indexCount} (h : ThreadKeeps env events n thread) (hle : n ≤ n')
    (hwithin : ∀ most, rowBudget env.global.rowLimit = some most → n' ≤ most) :
    ThreadKeeps env events n' thread := by
  have hused : rowBudget env.global.rowLimit = some n →
      rowBudget env.global.rowLimit = some n' := by
    intro hbudget
    rw [hbudget, Nat.le_antisymm hle (hwithin n hbudget)]
  obtain ⟨past, rest, delivered, hinv⟩ := h
  refine ⟨past, rest, delivered, hinv.events, hinv.rows, ?_, ?_, hinv.work, ?_⟩
  · exact hinv.emitted.imp_right fun h => ⟨hused h.1, h.2⟩
  · intro row point hpoint
    obtain ⟨hknows, hone⟩ := hinv.knows row point hpoint
    exact ⟨hknows.mono hle hwithin, hone⟩
  · exact fun hfinished => (hinv.ended hfinished).imp_right hused

/-- A call ends behind the last event, or with the budget used up. -/
theorem ThreadKeeps.endCall {events past rest : List ScanEvent} {n : Nat}
    {thread : ScanThread env.indexCount} (hevents : events = past ++ rest)
    (hemitted : thread.emitted = rowsOf past ∨
      rowBudget env.global.rowLimit = some n ∧ thread.emitted <+: rowsOf past)
    (hwork : MemberWork env thread.state rest)
    (hended : thread.outputCount = 0 → rest = [] ∨ rowBudget env.global.rowLimit = some n) :
    ThreadKeeps env events n thread.endCall := by
  refine ⟨past, rest, rowsOf past, hevents, ?_, ?_, ?_, ?_, ?_⟩
  · rw [ScanThread.endCall_asked, List.append_nil]
  · rw [ScanThread.endCall_emitted, ScanThread.endCall_pending]
    exact hemitted.imp_right fun h => ⟨h.1, h.2, rfl⟩
  · exact fun row point hpoint => absurd hpoint (thread.endCall_not_reserving row point)
  · rw [ScanThread.endCall_state]
    exact fun _ => hwork
  · intro hfinished
    refine hended ?_
    unfold ScanThread.endCall at hfinished
    split at hfinished
    next hzero => exact hzero
    next => cases hfinished

/-- What a step of a worker with `events` leads to when `n` rows have been granted. -/
structure StepKept (env : ScanEnvironment Filter) (events : List ScanEvent) (n : Nat)
    (thread : ScanThread env.indexCount) (result : DatasetCounters × ScanThread env.indexCount)
    (n' : Nat) : Prop where
  granted : Granted env.global.rowLimit result.1 n'
  grows : n ≤ n'
  account : n' + (thread.emitted.length + thread.pending) =
    n + (result.2.emitted.length + result.2.pending)
  keeps : ThreadKeeps env events n' result.2

theorem threadStep_reserving {succeeds : Bool} {counters : DatasetCounters}
    {thread : ScanThread env.indexCount} {row : DatasetRow} {point : ReservePoint}
    (hpoint : thread.point = .reserving row point) (hrunning : ∀ granted, point ≠ .returned granted) :
    threadStep env succeeds counters thread =
      .ok ((reserveStep env.global 1 succeeds counters point).1,
        { thread with
          point := .reserving row (reserveStep env.global 1 succeeds counters point).2 }) := by
  unfold threadStep
  rw [hpoint]
  cases point with
  | returned granted => exact absurd rfl (hrunning granted)
  | checkStop => rfl
  | load => rfl
  | exchange current => rfl
  | raise granted => rfl

/-- An access of a reservation. -/
theorem reserving_kept {events : List ScanEvent} {n : Nat} {counters : DatasetCounters}
    {thread : ScanThread env.indexCount} {row : DatasetRow} {point : ReservePoint}
    (succeeds : Bool) (hgranted : Granted env.global.rowLimit counters n)
    (hkeeps : ThreadKeeps env events n thread) (hpoint : thread.point = .reserving row point) :
    ∃ n', StepKept env events n thread
      ((reserveStep env.global 1 succeeds counters point).1,
        { thread with
          point := .reserving row (reserveStep env.global 1 succeeds counters point).2 }) n' := by
  obtain ⟨past, rest, delivered, hinv⟩ := hkeeps
  obtain ⟨hknows, hone⟩ := hinv.knows row point hpoint
  obtain ⟨n', hgranted', hgrows, haccount, hknows', hatMost⟩ :=
    reserveStep_reserved (by decide : (1 : UInt64) ≠ 0) succeeds hgranted hknows hone
  have hpending : thread.pending = point.pending := by
    rw [ScanThread.pending, hpoint]
  have hasked : thread.asked env = [emitProjectedRow env.bind env.outputColumnIds row] := by
    rw [ScanThread.asked, hpoint]
  refine ⟨n', hgranted', hgrows, ?_, past, rest, delivered, hinv.events, ?_, ?_, ?_, ?_, ?_⟩
  · rw [hpending]
    change n' + (thread.emitted.length + point.pending) = n + (thread.emitted.length +
      (reserveStep env.global 1 succeeds counters point).2.pending)
    omega
  · rw [hinv.rows, hasked]
    rfl
  · refine hinv.emitted.imp_right ?_
    rintro ⟨hused, hbefore, hnone⟩
    have hsame : n' = n := Nat.le_antisymm (hgranted'.le hused) hgrows
    rw [hpending] at hnone
    refine ⟨by rw [hsame]; exact hused, hbefore, ?_⟩
    change (reserveStep env.global 1 succeeds counters point).2.pending = 0
    omega
  · intro row' point' hnext
    injection hnext with hrow hnext
    subst hnext
    exact ⟨hknows', hatMost⟩
  · intro _
    refine hinv.work ?_
    rw [hpoint]
    exact fun h => by cases h
  · exact fun h => by cases h

/-- The return of a reservation: the row goes into the chunk, or the call ends. -/
theorem returned_kept {events : List ScanEvent} {n : Nat} {counters : DatasetCounters}
    {thread : ScanThread env.indexCount} {row : DatasetRow} {granted : UInt64}
    (hgranted : Granted env.global.rowLimit counters n)
    (hkeeps : ThreadKeeps env events n thread)
    (hpoint : thread.point = .reserving row (.returned granted)) :
    StepKept env events n thread
      (counters, if granted = 0 then thread.endCall else emitRow env thread row) n := by
  obtain ⟨past, rest, delivered, hinv⟩ := hkeeps
  obtain ⟨hknows, hone⟩ := hinv.knows row _ hpoint
  have hpending : thread.pending = granted.toNat := by
    rw [ScanThread.pending, hpoint]
    rfl
  have hrows : rowsOf past =
      delivered ++ [emitProjectedRow env.bind env.outputColumnIds row] := by
    rw [hinv.rows, ScanThread.asked, hpoint]
  have hwork : MemberWork env thread.state rest := by
    refine hinv.work ?_
    rw [hpoint]
    exact fun h => by cases h
  by_cases hrefused : granted = 0
  · -- the value is dropped, but no other row will be granted either
    rw [if_pos hrefused]
    have hused := hknows hrefused
    have hzero : thread.pending = 0 := by
      rw [hpending, hrefused]
      rfl
    have hbefore : thread.emitted <+: rowsOf past := by
      rw [hrows]
      rcases hinv.emitted with hall | ⟨-, hbefore, -⟩
      · rw [hall]
        exact List.prefix_append _ _
      · exact hbefore.trans (List.prefix_append _ _)
    refine ⟨hgranted, Nat.le_refl n, ?_, .endCall hinv.events (Or.inr ⟨hused, hbefore⟩) hwork
      fun _ => Or.inr hused⟩
    rw [hzero, ScanThread.endCall_emitted, ScanThread.endCall_pending]
  · rw [if_neg hrefused]
    have hpositive : granted.toNat ≠ 0 := fun h => hrefused (UInt64.toNat_inj.mp h)
    have hunit : thread.pending = 1 := by
      have : granted.toNat ≤ 1 := hone
      omega
    have hall : thread.emitted = delivered := by
      rcases hinv.emitted with hall | ⟨-, -, hnone⟩
      · exact hall
      · omega
    have hemitted : thread.emitted ++ [emitProjectedRow env.bind env.outputColumnIds row] =
        rowsOf past := by rw [hall, hrows]
    unfold emitRow
    dsimp only
    by_cases hfull : env.standardVectorSize ≤ thread.outputCount + 1
    · rw [if_pos hfull]
      refine ⟨hgranted, Nat.le_refl n, ?_, @ThreadKeeps.endCall _ _ _ _ _ _
        { thread with
          point := .scanning
          outputCount := thread.outputCount + 1
          emitted := thread.emitted ++ [emitProjectedRow env.bind env.outputColumnIds row] }
        hinv.events (Or.inl hemitted) hwork fun hempty => absurd hempty (Nat.succ_ne_zero _)⟩
      rw [ScanThread.endCall_emitted, ScanThread.endCall_pending, hunit, List.length_append]
      rfl
    · rw [if_neg hfull]
      refine ⟨hgranted, Nat.le_refl n, ?_, past, rest, rowsOf past, hinv.events, ?_, Or.inl hemitted,
        ?_, fun _ => hwork, ?_⟩
      · rw [hunit, List.length_append]
        rfl
      · exact (List.append_nil _).symm
      · exact fun _ _ h => by cases h
      · exact fun h => by cases h

/-- Work between two reservations. -/
theorem scanning_kept {events : List ScanEvent} {n : Nat} {counters counters' : DatasetCounters}
    {thread thread' : ScanThread env.indexCount} (succeeds : Bool)
    (hgranted : Granted env.global.rowLimit counters n)
    (hkeeps : ThreadKeeps env events n thread) (hpoint : thread.point = .scanning)
    (h : threadStep env succeeds counters thread = .ok (counters', thread')) :
    StepKept env events n thread (counters', thread') n := by
  obtain ⟨past, rest, delivered, hinv⟩ := hkeeps
  have hpending : thread.pending = 0 := by
    rw [ScanThread.pending, hpoint]
  have hrows : rowsOf past = delivered := by
    rw [hinv.rows, ScanThread.asked, hpoint, List.append_nil]
  have hwork : MemberWork env thread.state rest := by
    refine hinv.work ?_
    rw [hpoint]
    exact fun h => by cases h
  have hemitted : thread.emitted = rowsOf past ∨
      rowBudget env.global.rowLimit = some n ∧ thread.emitted <+: rowsOf past := by
    rw [hrows]
    exact hinv.emitted.imp_right fun h => ⟨h.1, h.2.1⟩
  have hdone := @scanHead_done _ env counters _ _ hwork
  unfold threadStep at h
  rw [hpoint] at h
  dsimp only at h
  generalize scanHead env counters thread.state = head at hdone h
  cases hdone with
  | failed hfail => cases h
  | last hsame hnil hwork' =>
    obtain ⟨rfl, rfl⟩ := Prod.mk.inj (Except.ok.inj h)
    rename_i l
    subst hnil
    refine ⟨hgranted.congr hsame, Nat.le_refl n, ?_, @ThreadKeeps.endCall _ _ _ _ _ _
      { thread with state := l } hinv.events hemitted hwork' fun _ => Or.inl rfl⟩
    rw [hpending, ScanThread.endCall_emitted, ScanThread.endCall_pending]
  | idle hsame hsplit hnone hwork' =>
    obtain ⟨rfl, rfl⟩ := Prod.mk.inj (Except.ok.inj h)
    rename_i l past' rest'
    have hall : rowsOf (past ++ past') = rowsOf past := by
      rw [rowsOf_append, hnone, List.append_nil]
    refine ⟨hgranted.congr hsame, Nat.le_refl n, ?_, past ++ past', rest', rowsOf past, ?_, ?_, ?_,
      ?_, fun _ => hwork', ?_⟩
    · rw [hpending]
      rfl
    · rw [hinv.events, hsplit, List.append_assoc]
    · rw [hall]
      exact (List.append_nil _).symm
    · exact hemitted.imp_right fun h => ⟨h.1, h.2, rfl⟩
    · exact fun _ _ h => by cases h
    · exact fun h => by cases h
  | ask hsame hsplit hone hwork' =>
    obtain ⟨rfl, rfl⟩ := Prod.mk.inj (Except.ok.inj h)
    rename_i row l past' rest'
    refine ⟨hgranted.congr hsame, Nat.le_refl n, ?_, past ++ past', rest', rowsOf past, ?_, ?_, ?_, ?_,
      fun _ => hwork', ?_⟩
    · rw [hpending]
      rfl
    · rw [hinv.events, hsplit, List.append_assoc]
    · rw [rowsOf_append, hone]
      rfl
    · exact hemitted.imp_right fun h => ⟨h.1, h.2, rfl⟩
    · intro row' point hreserving
      injection hreserving with hrow hstart
      subst hstart
      exact ⟨trivial, Nat.zero_le _⟩
    · exact fun h => by cases h

/-- **Step lemma**: a step of a worker accounts for what it is granted and emits. -/
theorem threadStep_kept {events : List ScanEvent} {n : Nat} {counters counters' : DatasetCounters}
    {thread thread' : ScanThread env.indexCount} {succeeds : Bool}
    (hgranted : Granted env.global.rowLimit counters n)
    (hkeeps : ThreadKeeps env events n thread)
    (h : threadStep env succeeds counters thread = .ok (counters', thread')) :
    ∃ n', StepKept env events n thread (counters', thread') n' := by
  cases hpoint : thread.point with
  | finished =>
    unfold threadStep at h
    rw [hpoint] at h
    obtain ⟨rfl, rfl⟩ := Prod.mk.inj (Except.ok.inj h)
    exact ⟨n, hgranted, Nat.le_refl n, rfl, hkeeps⟩
  | scanning => exact ⟨n, scanning_kept succeeds hgranted hkeeps hpoint h⟩
  | reserving row point =>
    by_cases hreturned : ∃ granted, point = .returned granted
    · obtain ⟨granted, rfl⟩ := hreturned
      unfold threadStep at h
      rw [hpoint] at h
      rw [← Except.ok.inj h]
      exact ⟨n, returned_kept hgranted hkeeps hpoint⟩
    · rw [threadStep_reserving hpoint (not_exists.mp hreturned)] at h
      rw [← Except.ok.inj h]
      exact reserving_kept succeeds hgranted hkeeps hpoint

/-! ## 4. All workers -/

section

variable {W : Type} [Fintype W]

/-- Rows that have been granted: those in chunks and those on their way. -/
def ScanWorkers.granted {indexCount : Nat} (s : ScanWorkers W indexCount) : Nat :=
  ∑ w, ((s.threads w).emitted.length + (s.threads w).pending)

def ScanWorkers.emitted {indexCount : Nat} (s : ScanWorkers W indexCount) : Nat :=
  ∑ w, (s.threads w).emitted.length

def ScanWorkers.Stopped {indexCount : Nat} (s : ScanWorkers W indexCount) : Prop :=
  ∀ w, (s.threads w).point = .finished

/-- What holds between any two steps of the scan. -/
structure WorkersInv (env : ScanEnvironment Filter) (events : W → List ScanEvent)
    (s : ScanWorkers W env.indexCount) : Prop where
  granted : Granted env.global.rowLimit s.counters s.granted
  keeps : ∀ w, ThreadKeeps env (events w) s.granted (s.threads w)

/-- **Run lemma**: whatever the order of the steps, the account of every worker is kept. -/
theorem workersSystem_inv [DecidableEq W] {assign : W → List RootFileTaskGroup}
    {s : ScanWorkers W env.indexCount} (h : (workersSystem env assign).Reachable s) :
    WorkersInv env (fun w => taskEvents env none {} (groupTasks env (assign w))) s := by
  refine h.invariant ?_ ?_
  · rintro s rfl
    have hnone : ScanWorkers.granted ({
        counters := {}
        threads := fun w => { state := { upcomingGroups := assign w } } } :
          ScanWorkers W env.indexCount) = 0 :=
      Finset.sum_eq_zero fun w _ => rfl
    refine ⟨?_, fun w => ⟨[], _, [], rfl, rfl, Or.inl rfl, fun _ _ h => (by cases h),
      fun _ => scanWork_start rfl (assign w), fun h => (by cases h)⟩⟩
    rw [hnone, Granted]
    split
    next => rfl
    next => exact ⟨rfl, Nat.zero_le _, fun h => by cases h⟩
  · rintro s ⟨w, succeeds⟩ t hinv ⟨counters, thread, hstep, rfl⟩
    obtain ⟨n', hgranted, hgrows, haccount, hkeeps⟩ :=
      threadStep_kept hinv.granted (hinv.keeps w) hstep
    have hsum : ScanWorkers.granted ({
        counters := counters
        threads := Function.update s.threads w thread } : ScanWorkers W env.indexCount) = n' := by
      have hupdate : (fun v => ((Function.update s.threads w thread v).emitted.length +
          (Function.update s.threads w thread v).pending)) =
          Function.update (fun v => (s.threads v).emitted.length + (s.threads v).pending) w
            (thread.emitted.length + thread.pending) := by
        funext v
        by_cases hv : v = w
        · subst hv
          simp only [Function.update_self]
        · simp only [Function.update_of_ne hv]
      have htotal := sum_update
        (fun v => (s.threads v).emitted.length + (s.threads v).pending) w
        (thread.emitted.length + thread.pending)
      rw [← hupdate] at htotal
      rw [ScanWorkers.granted] at haccount ⊢
      dsimp only at haccount htotal ⊢
      omega
    refine ⟨by rw [hsum]; exact hgranted, fun v => ?_⟩
    rw [hsum]
    dsimp only
    by_cases hv : v = w
    · subst hv
      rw [Function.update_self]
      exact hkeeps
    · rw [Function.update_of_ne hv]
      exact (hinv.keeps v).mono hgrows fun most hmost => hgranted.le hmost

/-- The rows of all workers, when nothing limits them. -/
def offeredRows (env : ScanEnvironment Filter) (assign : W → List RootFileTaskGroup) : Nat :=
  ∑ w, (rowsOf (taskEvents env none {} (groupTasks env (assign w)))).length

/-- A worker emits a beginning of its rows. -/
theorem ThreadKeeps.emitted_first {events : List ScanEvent} {n : Nat}
    {thread : ScanThread env.indexCount} (h : ThreadKeeps env events n thread) :
    thread.emitted <+: rowsOf events := by
  obtain ⟨past, rest, delivered, hinv⟩ := h
  have hdelivered : delivered <+: rowsOf events := by
    rw [hinv.events, rowsOf_append, hinv.rows, List.append_assoc]
    exact List.prefix_append _ _
  rcases hinv.emitted with hall | ⟨-, hbefore, -⟩
  · rw [hall]
    exact hdelivered
  · exact hbefore.trans hdelivered

/-- When all workers have stopped, they have emitted all rows, or as many as the limit allows. -/
theorem WorkersInv.stopped {assign : W → List RootFileTaskGroup}
    {s : ScanWorkers W env.indexCount}
    (hinv : WorkersInv env (fun w => taskEvents env none {} (groupTasks env (assign w))) s)
    (hstopped : s.Stopped) :
    s.granted = s.emitted ∧
      s.emitted = allowed (rowBudget env.global.rowLimit) (offeredRows env assign) := by
  have hpending : ∀ w, (s.threads w).pending = 0 := by
    intro w
    rw [ScanThread.pending, hstopped w]
  have hgranted : s.granted = s.emitted :=
    Finset.sum_congr rfl fun w _ => by rw [hpending w, Nat.add_zero]
  have hle : s.emitted ≤ offeredRows env assign :=
    Finset.sum_le_sum fun w _ => (hinv.keeps w).emitted_first.length_le
  refine ⟨hgranted, ?_⟩
  by_cases hused : rowBudget env.global.rowLimit = some s.granted
  · rw [hused, allowed, hgranted]
    exact (Nat.min_eq_left hle).symm
  · have hall : s.emitted = offeredRows env assign := by
      refine Finset.sum_congr rfl fun w _ => congrArg List.length ?_
      obtain ⟨past, rest, delivered, hthread⟩ := hinv.keeps w
      have hnil := (hthread.ended (hstopped w)).resolve_right hused
      have hrows : rowsOf past = delivered := by
        rw [hthread.rows, ScanThread.asked, hstopped w, List.append_nil]
      rw [hthread.events, hnil, List.append_nil, hrows]
      exact hthread.emitted.resolve_right fun h => hused h.1
    rw [hall]
    cases hbudget : rowBudget env.global.rowLimit with
    | none => rfl
    | some most =>
      have hwithin := hinv.granted.le hbudget
      exact (Nat.min_eq_right (by omega)).symm

end

/-! ## 5. The plan without the row limit -/

/-- The same query without its row limit. -/
def PlanInput.withoutRowLimit (input : PlanInput) : PlanInput :=
  { input with
    rowLimit := uint64Max
    global := { input.global with rowLimit := uint64Max } }

theorem scheduleCandidates_withoutRowLimit (input : PlanInput) (candidates : List RootBasketTask) :
    ∀ tasks, scheduleCandidates input.withoutRowLimit tasks candidates =
      scheduleCandidates input tasks candidates := by
  induction candidates with
  | nil => exact fun _ => rfl
  | cons candidate rest ih =>
    intro tasks
    have hone : scheduleCandidate input.withoutRowLimit tasks candidate =
        scheduleCandidate input tasks candidate := rfl
    rw [scheduleCandidates, scheduleCandidates, hone]
    cases scheduleCandidate input tasks candidate with
    | error e => rfl
    | ok tasks => exact ih tasks

theorem planRow_withoutRowLimit (input : PlanInput) (state : PlanState) (row : BasketRow) :
    planRow input.withoutRowLimit state row = planRow input state row := by
  have hcandidates : candidateTasks input.withoutRowLimit row.task =
      candidateTasks input row.task := rfl
  have hcount : countBloom input.withoutRowLimit state row = countBloom input state row := rfl
  have hbloom : passesBloom input.withoutRowLimit row = passesBloom input row := rfl
  unfold planRow
  rw [hcandidates, hcount, hbloom]
  simp only [scheduleCandidates_withoutRowLimit]

/-- The row limit changes nothing until it stops the task loop. -/
theorem planRows_withoutRowLimit {input : PlanInput} {rows : List BasketRow} :
    ∀ {state state' : PlanState} {fetched : List BasketRow},
      planRows input state rows = .ok (state', fetched) →
      (fetched = rows ∧ planRows input.withoutRowLimit state rows = .ok (state', rows)) ∨
        input.canStopAfterRowLimit = true ∧
          input.rowLimit.toNat ≤ state'.plannedValues.toNat := by
  have hnever : input.withoutRowLimit.canStopAfterRowLimit = false := rfl
  induction rows with
  | nil =>
    intro state state' fetched h
    obtain ⟨rfl, rfl⟩ := Prod.mk.inj (Except.ok.inj h)
    exact Or.inl ⟨rfl, rfl⟩
  | cons row rest ih =>
    intro state state' fetched h
    rw [planRows] at h
    rw [planRows, planRow_withoutRowLimit]
    cases hrow : planRow input state row with
    | error e =>
      rw [hrow] at h
      cases h
    | ok between =>
      rw [hrow] at h
      dsimp only at h ⊢
      by_cases hstop : (input.canStopAfterRowLimit && decide (input.rowLimit ≤ between.plannedValues)) = true
      · rw [if_pos hstop] at h
        obtain ⟨rfl, rfl⟩ := Prod.mk.inj (Except.ok.inj h)
        rw [Bool.and_eq_true, decide_eq_true_eq, UInt64.le_iff_toNat_le] at hstop
        exact Or.inr hstop
      · rw [if_neg hstop] at h
        rw [hnever, Bool.false_and, if_neg Bool.false_ne_true]
        cases hrest : planRows input between rest with
        | error e =>
          rw [hrest] at h
          cases h
        | ok result =>
          obtain ⟨last, more⟩ := result
          rw [hrest] at h
          obtain ⟨rfl, rfl⟩ := Prod.mk.inj (Except.ok.inj h)
          refine (ih hrest).imp_left ?_
          rintro ⟨rfl, hall⟩
          rw [hall]
          exact ⟨rfl, rfl⟩

/-- The parts of a plan. -/
theorem plan_parts {input : PlanInput} {rows fetched : List BasketRow}
    {global : DatasetGlobalState} {state : PlanState}
    (h : plan input rows = .ok (global, state, fetched)) :
    planRows input {} rows = .ok (state, fetched) ∧
      global = { input.global with
        tasks := state.tasks.reverse
        taskGroups := buildFileTaskGroups input state.tasks.reverse } := by
  unfold plan at h
  cases hloop : planRows input {} rows with
  | error e =>
    rw [hloop] at h
    cases h
  | ok result =>
    obtain ⟨last, more⟩ := result
    rw [hloop] at h
    dsimp only at h
    obtain ⟨hglobal, hrest⟩ := Prod.mk.inj (Except.ok.inj h)
    obtain ⟨rfl, rfl⟩ := Prod.mk.inj hrest
    exact ⟨rfl, hglobal.symm⟩

/-- The rows of a task. -/
def taskRowCount (env : ScanEnvironment Filter) (task : RootBasketTask) : Nat :=
  (rowsOf (task.entries.flatMap (entryEvents env task))).length

/-- Without the typed buffer a worker has the rows of its tasks. -/
theorem rowsOf_taskEvents_double (hdouble : env.typedTransport = false)
    (tasks : List RootBasketTask) :
    ∀ (openFile : Option (String × String)) (page : EntryPage env.indexCount),
      (rowsOf (taskEvents env openFile page tasks)).length =
        (tasks.map (taskRowCount env)).sum := by
  induction tasks with
  | nil => exact fun _ _ => rfl
  | cons task rest ih =>
    intro openFile page
    have hopen : rowsOf (openFileEvents env openFile task) = [] := by
      unfold openFileEvents
      split <;> rfl
    have hvisible : pageEvents env (visiblePage env page) = [] := by
      rw [visiblePage, if_neg (by rw [hdouble]; exact Bool.false_ne_true)]
      rfl
    rw [taskEvents, hvisible, List.append_nil, rowsOf_append, rowsOf_append, rowsOf_append, hopen,
      List.length_append, List.length_append, List.length_append, ih, List.map_cons, List.sum_cons]
    change 0 + taskRowCount env task + 0 + _ = _
    omega

theorem entryEvents_global (env : ScanEnvironment Filter) (global : DatasetGlobalState)
    (task : RootBasketTask) (entry : UInt64) :
    entryEvents { env with global := global } task entry = entryEvents env task entry := by
  have hanswer : entryAnswer { env with global := global } task entry =
      entryAnswer env task entry := rfl
  unfold entryEvents
  rw [hanswer]
  rcases entryAnswer env task entry with error | _ | answer
  · rfl
  · rfl
  · cases answer <;> rfl

theorem nextPage_global (env : ScanEnvironment Filter) (global : DatasetGlobalState)
    (task : RootBasketTask) (page : EntryPage env.indexCount) (entry : UInt64) :
    nextPage { env with global := global } task page entry = nextPage env task page entry := by
  have hanswer : entryAnswer { env with global := global } task entry =
      entryAnswer env task entry := rfl
  unfold nextPage
  rw [hanswer]
  rcases entryAnswer env task entry with error | _ | answer
  · rfl
  · rfl
  · cases answer <;> rfl

theorem taskRowCount_global (env : ScanEnvironment Filter) (global : DatasetGlobalState) :
    taskRowCount { env with global := global } = taskRowCount env := by
  funext task
  have hentries : entryEvents { env with global := global } task = entryEvents env task :=
    funext (entryEvents_global env global task)
  rw [taskRowCount, taskRowCount, hentries]

/-- The work of a list of tasks does not depend on what was planned. -/
theorem taskEvents_global (env : ScanEnvironment Filter) (global : DatasetGlobalState)
    (tasks : List RootBasketTask) :
    ∀ (openFile : Option (String × String)) (page : EntryPage env.indexCount),
      taskEvents { env with global := global } openFile page tasks =
        taskEvents env openFile page tasks := by
  induction tasks with
  | nil => exact fun _ _ => rfl
  | cons task rest ih =>
    intro openFile page
    have hentries : entryEvents { env with global := global } task = entryEvents env task :=
      funext (entryEvents_global env global task)
    have hpage : taskPage { env with global := global } page task = taskPage env page task :=
      congrArg (fun next => task.entries.foldl next (visiblePage env page))
        (funext fun page => funext fun entry => nextPage_global env global task page entry)
    rw [taskEvents, taskEvents, hentries, ← ih, ← hpage]
    rfl

/-- The workers' tasks are the clipped tasks of the plan, whoever draws which group. -/
theorem offeredRows_double {W : Type} [Fintype W] (hdouble : env.typedTransport = false)
    {assign : W → List RootFileTaskGroup}
    (hassign : ∑ w, (assign w : Multiset RootFileTaskGroup) = env.global.taskGroups)
    (hgroups : env.global.taskGroups.flatMap
      (fun group => (TaskCursor.enter group).remaining env.global) = env.global.tasks) :
    offeredRows env assign = ((env.global.tasks.filterMap
      fun task => (clipTask env.global task).1).map (taskRowCount env)).sum := by
  let weight : RootFileTaskGroup → Nat := fun group =>
    ((((TaskCursor.enter group).remaining env.global).filterMap
      fun task => (clipTask env.global task).1).map (taskRowCount env)).sum
  have hflat : ∀ groups : List RootFileTaskGroup,
      (((groups.flatMap fun group => (TaskCursor.enter group).remaining env.global).filterMap
        fun task => (clipTask env.global task).1).map (taskRowCount env)).sum =
          (groups.map weight).sum := by
    intro groups
    induction groups with
    | nil => rfl
    | cons group groups ih =>
      rw [List.flatMap_cons, List.filterMap_append, List.map_append, List.sum_append, ih,
        List.map_cons, List.sum_cons]
  rw [← hgroups, hflat, ← sum_assign hassign]
  refine Finset.sum_congr rfl fun w _ => ?_
  rw [rowsOf_taskEvents_double hdouble, ← hflat]
  rfl

/-! ## 6. Limited and unlimited scans -/

/-- What the planner and the workers know of a query. -/
structure ScanEnvironment.Queried (env : ScanEnvironment Filter) (input : PlanInput) : Prop where
  rowLimit : input.global.rowLimit = input.rowLimit
  noValueFilter : input.hasFilters = false → input.hasValueFilter = false
  noEntryFilters : input.hasFilters = false → env.entryFilters = []
  noElementFilters : input.hasFilters = false → env.elementFilters = []
  noEventRange : input.hasFilters = false → input.global.hasEventRange = false
  noEntryRange : input.hasFilters = false → input.global.localEntryRange.known = false
  noPredicates : input.hasPathPredicates = false → env.bind.pathPredicates = []

/-- The basket rows count the values that the reader hands over. -/
structure ScanEnvironment.Indexed (env : ScanEnvironment Filter)
    (contents : FileContents env.indexCount) (rows : List BasketRow) : Prop where
  inFile : ∀ row ∈ rows, row.task.InFile contents
  valueCount : ∀ row ∈ rows, taskValues contents.count row.task = row.task.valueCount.toNat
  opens : ∀ task, 0 < (contents.entries task.rootUri).toNat → env.openRootFile task = .ok ()
  reads : ∀ task entry, entry.toNat < (contents.entries task.rootUri).toNat →
    ∃ answer, env.numericEntry task entry = .ok answer ∧
      handedOver answer = .ok (contents.values task.rootUri task.schemaId entry)

/-- A query that the planner may cut short has no filters and no ranges. -/
theorem ScanEnvironment.Queried.plain {input : PlanInput} (hqueried : env.Queried input)
    (hcut : input.canStopAfterRowLimit = true) : input.Plain ∧ input.hasFilters = false := by
  unfold PlanInput.canStopAfterRowLimit PlanInput.intervalFilterActive at hcut
  simp only [Bool.and_eq_true, Bool.not_eq_true', Bool.or_eq_false_iff] at hcut
  obtain ⟨⟨-, hfilters⟩, hselection, hpredicates⟩ := hcut
  exact ⟨⟨hselection, hpredicates, hfilters, hqueried.noValueFilter hfilters⟩, hfilters⟩

/-- Planned whole, the baskets offer as many rows as the index counts. -/
theorem plannedValues_le_offeredRows {W : Type} [Fintype W] {input : PlanInput}
    (hplain : input.Plain) {rows fetched : List BasketRow} {state : PlanState}
    (hplan : plan input rows = .ok (env.global, state, fetched))
    {contents : FileContents env.indexCount} (henv : env.Reads contents)
    (hindexed : env.Indexed contents rows) {assign : W → List RootFileTaskGroup}
    (hassign : ∑ w, (assign w : Multiset RootFileTaskGroup) = env.global.taskGroups) :
    state.plannedValues.toNat ≤ offeredRows env assign := by
  obtain ⟨hloop, hglobal⟩ := plan_parts hplan
  obtain ⟨hfetched, -, hfits, hvalues, hplanned⟩ :=
    @planRows_values contents.count _ _ _ hplain _ hindexed.inFile _ _ _ hloop
      (fun task htask => by cases htask)
  have htasks : env.global.tasks = state.tasks.reverse := by rw [hglobal]
  have hgroups : env.global.taskGroups = buildFileTaskGroups input env.global.tasks := by
    rw [hglobal]
  have hsame : (fetched.map fun row => taskValues contents.count row.task) =
      fetched.map fun row => row.task.valueCount.toNat :=
    List.map_congr_left fun row hrow => hindexed.valueCount row (hfetched.subset hrow)
  have hsum : (env.global.tasks.map (taskValues contents.count)).sum =
      state.plannedValues.toNat := by
    rw [htasks, List.map_reverse, List.sum_reverse, hvalues, hplanned, hsame]
    rfl
  obtain ⟨hshare, hmember⟩ := @sum_groupTasks _ env contents henv _ _ _ hassign
    (flatMap_enter_remaining input env.global hgroups)
  rw [← hsum, ← hshare]
  refine Finset.sum_le_sum fun w _ => ?_
  have hinFile : ∀ task ∈ groupTasks env (assign w), task.InFile contents := by
    intro task htask
    have hplannedTask := hmember w task htask
    rw [htasks] at hplannedTask
    exact hfits task (List.mem_reverse.mp hplannedTask)
  rw [(taskEvents_length henv hinFile).2]
  exact Nat.le_add_right _ _

end

/-- **The row limit is exact.**  The plan may stop early, the workers' reservations may interleave
    in any way: never more rows are granted than the limit allows, each granted row is emitted,
    and in the end there are as many as the unlimited scan emits, or as the limit allows. -/
theorem row_limit_exact {Filter W : Type} [Fintype W] [DecidableEq W]
    (env : ScanEnvironment Filter) {input : PlanInput} (hqueried : env.Queried input)
    {rows fetched fetched' : List BasketRow} {state state' : PlanState}
    {unlimited : DatasetGlobalState}
    (hplan : plan input rows = .ok (env.global, state, fetched))
    (hplan' : plan input.withoutRowLimit rows = .ok (unlimited, state', fetched'))
    {contents : FileContents env.indexCount}
    (hindexed : input.canStopAfterRowLimit = true → env.Indexed contents rows)
    {assign assign' : W → List RootFileTaskGroup}
    (hassign : ∑ w, (assign w : Multiset RootFileTaskGroup) = env.global.taskGroups)
    (hassign' : ∑ w, (assign' w : Multiset RootFileTaskGroup) = unlimited.taskGroups)
    (hsame : fetched = rows → env.typedTransport = true →
      ∀ w, groupTasks { env with global := unlimited } (assign' w) = groupTasks env (assign w))
    (hquiet' : ∀ w, Quiet (taskEvents { env with global := unlimited } none {}
      (groupTasks { env with global := unlimited } (assign' w)))) :
    ∃ total, ScanEmits { env with global := unlimited } assign' total ∧
      (∀ s, (workersSystem env assign).Reachable s →
        (input.rowLimit ≠ uint64Max →
          s.counters.emittedRows.toNat = s.granted ∧ s.granted ≤ input.rowLimit.toNat) ∧
        (∀ w, (s.threads w).emitted <+:
          rowsOf (taskEvents env none {} (groupTasks env (assign w)))) ∧
        (s.Stopped →
          s.emitted = s.granted ∧ s.emitted = allowed (rowBudget input.rowLimit) total)) ∧
      ∀ metadataRows standardVectorSize : UInt64, standardVectorSize ≠ 0 →
        MetadataEmits unlimited metadataRows standardVectorSize metadataRows.toNat ∧
          MetadataEmits env.global metadataRows standardVectorSize
            (allowed (rowBudget input.rowLimit) metadataRows.toNat) := by
  obtain ⟨hloop, hglobal⟩ := plan_parts hplan
  obtain ⟨hloop', hglobal'⟩ := plan_parts hplan'
  have hlimit : env.global.rowLimit = input.rowLimit := by
    rw [hglobal]
    exact hqueried.rowLimit
  have hnone : rowBudget unlimited.rowLimit = none := by
    rw [hglobal']
    rfl
  have htotal := scan_emits { env with global := unlimited } assign' hquiet'
  rw [hnone] at htotal
  -- The rows on offer agree, or are both beyond the limit.
  have hoffered : allowed (rowBudget input.rowLimit) (offeredRows env assign) =
      allowed (rowBudget input.rowLimit)
        (offeredRows { env with global := unlimited } assign') := by
    rcases planRows_withoutRowLimit hloop with ⟨hall, hwhole⟩ | ⟨hcut, hreached⟩
    · rw [hloop'] at hwhole
      obtain ⟨rfl, -⟩ := Prod.mk.inj (Except.ok.inj hwhole)
      refine congrArg _ ?_
      cases htyped : env.typedTransport with
      | true =>
        refine Finset.sum_congr rfl fun w _ => ?_
        rw [hsame hall htyped w]
        exact congrArg (fun events => (rowsOf events).length)
          (taskEvents_global env unlimited _ _ _).symm
      | false =>
        have hgroups : env.global.taskGroups = buildFileTaskGroups input env.global.tasks := by
          rw [hglobal]
        have hgroups' : unlimited.taskGroups =
            buildFileTaskGroups input.withoutRowLimit unlimited.tasks := by
          rw [hglobal']
        rw [offeredRows_double htyped hassign (flatMap_enter_remaining input env.global hgroups),
          @offeredRows_double _ { env with global := unlimited } _ _ htyped _ hassign'
            (flatMap_enter_remaining input.withoutRowLimit unlimited hgroups'),
          taskRowCount_global env unlimited, hglobal, hglobal']
        rfl
    · obtain ⟨hplain, hfilters⟩ := hqueried.plain hcut
      have hrows := hindexed hcut
      have hreads : env.Reads contents :=
        ⟨hqueried.noEntryFilters hfilters, hqueried.noElementFilters hfilters,
          hqueried.noPredicates hplain.noPredicates,
          by rw [hglobal]; exact hqueried.noEventRange hfilters,
          by rw [hglobal]; exact hqueried.noEntryRange hfilters, hrows.opens, hrows.reads⟩
      have hreads' : ScanEnvironment.Reads { env with global := unlimited } contents :=
        ⟨hreads.noEntryFilters, hreads.noElementFilters, hreads.noPredicates,
          by rw [hglobal']; exact hqueried.noEventRange hfilters,
          by rw [hglobal']; exact hqueried.noEntryRange hfilters, hrows.opens, hrows.reads⟩
      have hplain' : input.withoutRowLimit.Plain :=
        ⟨hplain.noSelection, hplain.noPredicates, hplain.noFilters, hplain.noValueFilter⟩
      have hoffers := plannedValues_le_offeredRows hplain hplan hreads hrows hassign
      have hoffers' := @plannedValues_le_offeredRows _ { env with global := unlimited } _ _ _
        hplain' _ _ _ hplan' _ hreads'
        ⟨hrows.inFile, hrows.valueCount, hrows.opens, hrows.reads⟩ _ hassign'
      -- the unlimited plan counts at least the baskets of the limited one
      have hmore : state.plannedValues.toNat ≤ state'.plannedValues.toNat := by
        obtain ⟨hfetched, -, -, -, hplanned⟩ :=
          @planRows_values contents.count _ _ _ hplain _ hrows.inFile _ _ _ hloop
            (fun task htask => by cases htask)
        obtain ⟨-, hall', -, -, hplanned'⟩ :=
          @planRows_values contents.count _ _ _ hplain' _ hrows.inFile _ _ _ hloop'
            (fun task htask => by cases htask)
        have hwhole : fetched' = rows := hall'.resolve_right fun h => h.1 rfl
        rw [hplanned, hplanned', hwhole]
        exact Nat.add_le_add_left ((hfetched.sublist.map _).sum_le_sum (by simp)) _
      unfold rowBudget
      split
      next hunlimited =>
        have hnever : input.canStopAfterRowLimit = false := by
          unfold PlanInput.canStopAfterRowLimit
          rw [hunlimited]
          rfl
        rw [hnever] at hcut
        cases hcut
      next =>
        unfold allowed
        dsimp only
        omega
  refine ⟨_, htotal, ?_, ?_⟩
  · intro s hreachable
    have hinv := workersSystem_inv hreachable
    refine ⟨?_, fun w => (hinv.keeps w).emitted_first, fun hstopped => ?_⟩
    · intro hlimited
      have hgranted := hinv.granted
      rw [Granted, hlimit, if_neg hlimited] at hgranted
      exact ⟨hgranted.1, hgranted.2.1⟩
    · obtain ⟨hequal, hend⟩ := hinv.stopped hstopped
      refine ⟨hequal.symm, ?_⟩
      rw [hend, hlimit, hoffered]
      rfl
  · intro metadataRows standardVectorSize hsize
    have hmetadata := @metadataScan_emits unlimited metadataRows standardVectorSize hsize
    rw [hnone] at hmetadata
    refine ⟨hmetadata, ?_⟩
    rw [← hlimit]
    exact metadataScan_emits hsize

/-! ### One file with a row limit -/

/-- A query for one row; the plan stops behind the first basket. -/
def oneRowInput : PlanInput where
  rowLimit := 1
  global := { rowLimit := 1 }

def oneRowEnvironment : ScanEnvironment Unit :=
  { oneValueEnvironment .bigint with
    global :=
      { tasks := (oneValueRows.2.map fun basket => (joinedRow basket oneValueRows.1).task).take 1
        taskGroups := [⟨0, 1, 0, by decide⟩]
        rowLimit := 1 } }

/-- The first of two workers draws the only group. -/
def oneRowAssign (groups : List RootFileTaskGroup) (w : Fin 2) : List RootFileTaskGroup :=
  if w = 0 then groups else []

theorem oneRow_planned :
    ∃ state, plan oneRowInput (oneValueRows.2.map fun basket => joinedRow basket oneValueRows.1) =
      .ok (oneRowEnvironment.global, state,
        (oneValueRows.2.map fun basket => joinedRow basket oneValueRows.1).take 1) :=
  ⟨_, rfl⟩

theorem oneRow_unlimited :
    ∃ state, plan oneRowInput.withoutRowLimit
        (oneValueRows.2.map fun basket => joinedRow basket oneValueRows.1) =
      .ok ((oneValueEnvironment .bigint).global, state,
        oneValueRows.2.map fun basket => joinedRow basket oneValueRows.1) :=
  ⟨_, rfl⟩

theorem oneRow_inFile : ∀ row ∈ oneValueRows.2.map fun basket => joinedRow basket oneValueRows.1,
    row.task.InFile oneValueContents ∧
      taskValues oneValueContents.count row.task = row.task.valueCount.toNat := by
  intro row hrow
  obtain ⟨basket, hbasket, rfl⟩ := List.mem_map.mp hrow
  rcases List.mem_cons.mp hbasket with rfl | hsecond
  · exact ⟨⟨by decide, rfl, by decide⟩, by decide +kernel⟩
  · rw [List.mem_singleton.mp hsecond]
    exact ⟨⟨by decide, rfl, by decide⟩, by decide +kernel⟩

/-- Two workers and one row. -/
theorem row_limit_of_one_row :
    ∃ total, ∀ s, (workersSystem oneRowEnvironment
      (oneRowAssign oneRowEnvironment.global.taskGroups)).Reachable s →
        s.granted ≤ 1 ∧ (s.Stopped → s.emitted = min 1 total) := by
  obtain ⟨state, hplan⟩ := oneRow_planned
  obtain ⟨state', hplan'⟩ := oneRow_unlimited
  have hgroups : ∀ w, ∀ task ∈ groupTasks (oneValueEnvironment .bigint)
      (oneRowAssign (oneValueEnvironment .bigint).global.taskGroups w),
        task.InFile oneValueContents := by
    intro w task htask
    have hplanned : task ∈ (oneValueEnvironment .bigint).global.tasks := by
      unfold oneRowAssign at htask
      split at htask
      · exact htask
      · cases htask
    obtain ⟨basket, hbasket, rfl⟩ := List.mem_map.mp hplanned
    exact (oneRow_inFile _ (List.mem_map_of_mem hbasket)).1
  obtain ⟨total, -, hruns, -⟩ := @row_limit_exact Unit (Fin 2) _ _ oneRowEnvironment oneRowInput
    ⟨rfl, fun _ => rfl, fun _ => rfl, fun _ => rfl, fun _ => rfl, fun _ => rfl, fun _ => rfl⟩ _ _ _ _ _ _
    hplan hplan' oneValueContents
    (fun _ => ⟨fun row hrow => (oneRow_inFile row hrow).1, fun row hrow => (oneRow_inFile row hrow).2,
      fun _ _ => rfl, fun _ _ _ => ⟨_, rfl, rfl⟩⟩)
    (oneRowAssign oneRowEnvironment.global.taskGroups)
    (oneRowAssign (oneValueEnvironment .bigint).global.taskGroups)
    (by rfl) (by rfl) (fun hwhole => absurd (congrArg List.length hwhole) (by decide))
    (fun w => (taskEvents_length (oneValue_reads .bigint) (hgroups w)).1)
  refine ⟨total, fun s hs => ?_⟩
  obtain ⟨hlimited, -, hend⟩ := hruns s hs
  exact ⟨(hlimited (by decide)).2, fun hstopped => (hend hstopped).2⟩

/-! ### A typed column whose tasks are drawn differently -/

/-- Two files of one entry; the entry of the first holds one value, that of the second none. -/
def twoFileRows : List BasketRow :=
  [{ task := { (default : RootBasketTask) with
       fileId := "f", rootUri := "f.root", entryEnd := 1, valueCount := 1, basketCount := 1
       fileTotalEntries := 1, fileTotalBaskets := 1 } },
    { task := { (default : RootBasketTask) with
       fileId := "g", rootUri := "g.root", eventBase := 1, entryEnd := 1, basketCount := 1
       fileTotalEntries := 1, fileTotalBaskets := 1 } }]

/-- A query for five rows, which the plan does not reach. -/
def twoFileInput : PlanInput where
  rowLimit := 5
  global := { rowLimit := 5 }

/-- A BIGINT column, whose values are handed over whole; every file is a group. -/
def twoFileEnvironment (rowLimit : UInt64) : ScanEnvironment Unit where
  bind := { valueType := .bigint }
  global :=
    { tasks := twoFileRows.map BasketRow.task
      taskGroups := [⟨0, 1, 0, Nat.one_pos⟩, ⟨1, 2, 0, Nat.one_lt_two⟩]
      rowLimit := rowLimit }
  outputColumnIds := [.column 1]
  standardVectorSize := 2048
  evaluate := fun _ _ => true
  openRootFile := fun _ => .ok ()
  numericEntry := fun task _ =>
    .ok (.serializedValues (if task.rootUri = "f.root" then oneValue 0 else []))
  predicateValues := fun _ _ _ => none

/-- One of two workers draws both groups, or each draws one. -/
def drawnByOne (w : Fin 2) : List RootFileTaskGroup :=
  if w = 0 then (twoFileEnvironment 5).global.taskGroups else []

def drawnByBoth (w : Fin 2) : List RootFileTaskGroup :=
  ((twoFileEnvironment 5).global.taskGroups.drop w).take 1

/-- The worker that has both groups emits the value of the first file twice. -/
theorem drawnByOne_run :
    ∃ s, (workersSystem (twoFileEnvironment 5) drawnByOne).Reachable s ∧ s.Stopped ∧
      s.emitted = 2 := by
  have hrun : ∃ s : ScanWorkers (Fin 2) 0,
      runSteps (nextWorkers (twoFileEnvironment 5))
        { counters := {}, threads := fun w => { state := { upcomingGroups := drawnByOne w } } }
        (List.replicate 14 (0, true) ++ [(1, true)]) = some s ∧ s.Stopped ∧ s.emitted = 2 := by
    refine ⟨_, rfl, ?_, rfl⟩
    intro w
    fin_cases w <;> rfl
  obtain ⟨s, hsteps, hend⟩ := hrun
  refine ⟨s, System.reached_of_runSteps ?_ (.init rfl) hsteps, hend⟩
  intro s label t hnext
  refine ⟨trivial, ?_⟩
  unfold nextWorkers at hnext
  split at hnext
  next => cases hnext
  next counters thread hstep => exact ⟨counters, thread, hstep, (Option.some.inj hnext).symm⟩

/-- Each with one group, the workers have one row between them. -/
theorem drawnByBoth_emits : ScanEmits (twoFileEnvironment uint64Max) drawnByBoth 1 := by
  refine scan_emits (twoFileEnvironment uint64Max) drawnByBoth fun w => ?_
  by_contra hnot
  obtain ⟨e, he⟩ := outcome_error_of_not_quiet hnot
  have hends : (outcome (taskEvents (twoFileEnvironment uint64Max) none {}
      (groupTasks (twoFileEnvironment uint64Max) (drawnByBoth w)))).toOption.isSome = true := by
    fin_cases w <;> decide
  rw [he] at hends
  cases hends

/-- **The rows of a typed column depend on who draws which group.**  The limit of five is not
    reached, and the limited scan emits two rows where the unlimited scan emits one. -/
theorem row_limit_repeats_typed_page :
    (∃ state, plan twoFileInput twoFileRows =
      .ok ((twoFileEnvironment 5).global, state, twoFileRows)) ∧
    (∃ state, plan twoFileInput.withoutRowLimit twoFileRows =
      .ok ((twoFileEnvironment uint64Max).global, state, twoFileRows)) ∧
    ¬ ∃ total, ScanEmits (twoFileEnvironment uint64Max) drawnByBoth total ∧
      ∀ s, (workersSystem (twoFileEnvironment 5) drawnByOne).Reachable s → s.Stopped →
        s.emitted = allowed (rowBudget twoFileInput.rowLimit) total := by
  refine ⟨⟨_, rfl⟩, ⟨_, rfl⟩, ?_⟩
  rintro ⟨total, htotal, hlimited⟩
  obtain ⟨s, hreachable, hstopped, hemitted⟩ := drawnByOne_run
  have hone := htotal.unique drawnByBoth_emits
  have htwo := hlimited s hreachable hstopped
  rw [hone, hemitted] at htwo
  exact absurd htwo (by decide)

end RootLake.Dataset

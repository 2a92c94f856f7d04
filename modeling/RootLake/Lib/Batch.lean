/-
  RootLake/Lib/Batch.lean
  =======================
  **Producers read in bounded batches.**

  A producer is a loop that is entered again and again with room for a bounded number
  of rows: every call runs iterations until the room is used up or no work is left.
  What the producer still has to do in a state is a finite list of events: a row, an
  idle step, or a failure.  If every iteration performs a non-empty beginning of that
  list, then calling often enough delivers exactly the rows of the list, whatever the
  size of a batch; this is `Traces.drain_eq`.
-/
import Mathlib.Tactic.Common

namespace RootLake.Batch

universe u v w

/-- One step of the remaining work of a producer. -/
inductive Event (Row : Type u) (Failure : Type v) where
  | row (r : Row)
  | idle
  | fail (e : Failure)

variable {Row : Type u} {Failure : Type v} {State : Type w}

/-- What a list of events delivers: its rows, or the first failure. -/
def outcome : List (Event Row Failure) → Except Failure (List Row)
  | [] => .ok []
  | .row r :: events => (r :: ·) <$> outcome events
  | .idle :: events => outcome events
  | .fail e :: _ => .error e

example (e : Failure) (events : List (Event Row Failure)) :
    outcome (.idle :: .fail e :: events) = .error e := by
  simp [outcome]

/-- The rows of a list of events, failures left out. -/
def rowsOf : List (Event Row Failure) → List Row
  | [] => []
  | .row r :: events => r :: rowsOf events
  | .idle :: events => rowsOf events
  | .fail _ :: events => rowsOf events

/-- A list of events without a failure. -/
def Quiet (events : List (Event Row Failure)) : Prop := ∀ e, Event.fail e ∉ events

/-- Outcome of one iteration of the producer's loop; `last` ends the call. -/
inductive Iteration (Row : Type u) (State : Type w) where
  | more (rows : List Row) (next : State)
  | last (rows : List Row) (next : State)

/-- Why a call raised instead of returning a batch. -/
inductive Stop (Failure : Type v) where
  | failed (e : Failure)
  | fuelExhausted
  deriving DecidableEq

/-- One call: iterate while there is room. -/
def fill (iterate : Nat → State → Except Failure (Iteration Row State)) :
    Nat → Nat → State → Except (Stop Failure) (List Row × State)
  | _, 0, s => .ok ([], s)
  | 0, _ + 1, _ => .error .fuelExhausted
  | fuel + 1, room + 1, s =>
      match iterate (room + 1) s with
      | .error e => .error (.failed e)
      | .ok (.last rows t) => .ok (rows, t)
      | .ok (.more rows t) =>
          match fill iterate fuel (room + 1 - rows.length) t with
          | .error e => .error e
          | .ok (more, u) => .ok (rows ++ more, u)

/-- The rows of a number of consecutive calls. -/
def drain (call : State → Except (Stop Failure) (List Row × State)) :
    Nat → State → Except (Stop Failure) (List Row)
  | 0, _ => .ok []
  | calls + 1, s =>
      match call s with
      | .error e => .error e
      | .ok (rows, t) =>
          match drain call calls t with
          | .error e => .error e
          | .ok more => .ok (rows ++ more)

/-- Repeat a step at most a number of times, until it reports success. -/
def repeatUntil (step : State → Except Failure (Bool × State)) :
    Nat → State → Except Failure (Bool × State)
  | 0, s => .ok (false, s)
  | steps + 1, s =>
      match step s with
      | .error e => .error e
      | .ok (true, t) => .ok (true, t)
      | .ok (false, t) => repeatUntil step steps t

/-! ### Outcomes -/

@[simp] theorem outcome_nil : outcome ([] : List (Event Row Failure)) = .ok [] := rfl

@[simp] theorem outcome_idle (events : List (Event Row Failure)) :
    outcome (.idle :: events) = outcome events := rfl

@[simp] theorem outcome_row (r : Row) (events : List (Event Row Failure)) :
    outcome (.row r :: events) = (r :: ·) <$> outcome events := rfl

@[simp] theorem outcome_fail (e : Failure) (events : List (Event Row Failure)) :
    outcome (.fail e :: events) = .error e := rfl

@[simp] theorem rowsOf_nil : rowsOf ([] : List (Event Row Failure)) = [] := rfl

@[simp] theorem rowsOf_append (past rest : List (Event Row Failure)) :
    rowsOf (past ++ rest) = rowsOf past ++ rowsOf rest := by
  induction past with
  | nil => rfl
  | cons event past ih =>
    cases event with
    | row r => simp [rowsOf, ih]
    | idle => simpa [rowsOf] using ih
    | fail e => simpa [rowsOf] using ih

theorem quiet_nil : Quiet ([] : List (Event Row Failure)) := by
  intro e he
  cases he

theorem quiet_append {past rest : List (Event Row Failure)} :
    Quiet (past ++ rest) ↔ Quiet past ∧ Quiet rest := by
  constructor
  · intro h
    exact ⟨fun e he => h e (List.mem_append_left _ he),
      fun e he => h e (List.mem_append_right _ he)⟩
  · rintro ⟨hpast, hrest⟩ e he
    rcases List.mem_append.mp he with h | h
    · exact hpast e h
    · exact hrest e h

/-- Without a failure every row is delivered. -/
theorem outcome_of_quiet {events : List (Event Row Failure)} (h : Quiet events) :
    outcome events = .ok (rowsOf events) := by
  induction events with
  | nil => rfl
  | cons event events ih =>
    have hrest : Quiet events := fun e he => h e (List.mem_cons_of_mem _ he)
    cases event with
    | row r => simp [rowsOf, ih hrest, Functor.map, Except.map]
    | idle => simpa [rowsOf] using ih hrest
    | fail e => exact absurd (List.mem_cons_self) (h e)

/-- A failure anywhere makes the outcome an error. -/
theorem outcome_error_of_not_quiet {events : List (Event Row Failure)} (h : ¬ Quiet events) :
    ∃ e, outcome events = .error e := by
  induction events with
  | nil => exact absurd quiet_nil h
  | cons event events ih =>
    cases event with
    | fail e => exact ⟨e, rfl⟩
    | row r =>
      have hrest : ¬ Quiet events := by
        intro hq
        apply h
        intro e he
        rcases List.mem_cons.mp he with heq | hmem
        · cases heq
        · exact hq e hmem
      obtain ⟨e, he⟩ := ih hrest
      exact ⟨e, by simp [he, Functor.map, Except.map]⟩
    | idle =>
      have hrest : ¬ Quiet events := by
        intro hq
        apply h
        intro e he
        rcases List.mem_cons.mp he with heq | hmem
        · cases heq
        · exact hq e hmem
      obtain ⟨e, he⟩ := ih hrest
      exact ⟨e, he⟩

/-- The failure of a list is one of its events. -/
theorem mem_of_outcome_error {events : List (Event Row Failure)} {e : Failure}
    (h : outcome events = .error e) : Event.fail e ∈ events := by
  induction events with
  | nil => cases h
  | cons event events ih =>
    cases event with
    | row r =>
      rw [outcome_row] at h
      cases hout : outcome events with
      | error e' =>
        rw [hout] at h
        exact List.mem_cons_of_mem _ (ih (hout.trans h))
      | ok rows =>
        rw [hout] at h
        cases h
    | idle => exact List.mem_cons_of_mem _ (ih h)
    | fail e' => exact Except.error.inj h ▸ List.mem_cons_self

/-- What is delivered was one of the events. -/
theorem mem_of_outcome_ok {events : List (Event Row Failure)} {rows : List Row}
    (h : outcome events = .ok rows) {r : Row} (hr : r ∈ rows) : Event.row r ∈ events := by
  induction events generalizing rows with
  | nil =>
    cases h
    cases hr
  | cons event events ih =>
    cases event with
    | row r' =>
      rw [outcome_row] at h
      cases hout : outcome events with
      | error e =>
        rw [hout] at h
        cases h
      | ok rest =>
        rw [hout] at h
        cases h
        rcases List.mem_cons.mp hr with rfl | hr
        · exact List.mem_cons_self
        · exact List.mem_cons_of_mem _ (ih hout hr)
    | idle => exact List.mem_cons_of_mem _ (ih h hr)
    | fail e => cases h

/-- Events that were performed without a failure put their rows in front. -/
theorem outcome_append {past rest : List (Event Row Failure)} (h : Quiet past) :
    outcome (past ++ rest) = (rowsOf past ++ ·) <$> outcome rest := by
  induction past with
  | nil =>
    rw [List.nil_append]
    cases outcome rest <;> rfl
  | cons event past ih =>
    have hpast : Quiet past := fun e he => h e (List.mem_cons_of_mem _ he)
    cases event with
    | row r =>
      rw [List.cons_append, outcome_row, ih hpast]
      cases outcome rest <;> rfl
    | idle => simpa [rowsOf] using ih hpast
    | fail e => exact absurd (List.mem_cons_self) (h e)

/-- What comes behind a failure does not matter. -/
theorem outcome_append_error {past rest : List (Event Row Failure)} {e : Failure}
    (h : outcome past = .error e) : outcome (past ++ rest) = .error e := by
  induction past with
  | nil => cases h
  | cons event past ih =>
    cases event with
    | row r =>
      rw [outcome_row] at h
      cases hpast : outcome past with
      | error e' =>
        rw [hpast] at h
        cases h
        rw [List.cons_append, outcome_row, ih hpast]
        rfl
      | ok rows =>
        rw [hpast] at h
        cases h
    | idle => exact ih h
    | fail e' => exact h

/-! ### The batch rule -/

/-- **The contract of a producer.**  `Work s events` says that `events` is what remains to
    be done in `s`.  An iteration with room either fails as the work does, or ends the
    call because no work is left, or performs a non-empty beginning of the work whose
    rows fit. -/
structure Traces (iterate : Nat → State → Except Failure (Iteration Row State))
    (Work : State → List (Event Row Failure) → Prop) : Prop where
  error : ∀ {s events room e}, Work s events → 0 < room → iterate room s = .error e →
    outcome events = .error e
  last : ∀ {s events room rows t}, Work s events → 0 < room →
    iterate room s = .ok (.last rows t) → rows = [] ∧ events = [] ∧ Work t []
  more : ∀ {s events room rows t}, Work s events → 0 < room →
    iterate room s = .ok (.more rows t) →
    rows.length ≤ room ∧
      ∃ past rest, past ≠ [] ∧ Quiet past ∧ events = past ++ rest ∧ rowsOf past = rows ∧
        Work t rest

section Rule

variable {iterate : Nat → State → Except Failure (Iteration Row State)}
variable {Work : State → List (Event Row Failure) → Prop}

/-- One call performs a beginning of the work; with room it makes progress as long as
    there is work. -/
theorem Traces.fill_ok (h : Traces iterate Work) :
    ∀ {fuel room : Nat} {s t : State} {events : List (Event Row Failure)} {rows : List Row},
      Work s events → fill iterate fuel room s = .ok (rows, t) →
      rows.length ≤ room ∧
        ∃ past rest, Quiet past ∧ events = past ++ rest ∧ rowsOf past = rows ∧ Work t rest ∧
          (0 < room → past = [] → rest = []) := by
  intro fuel
  induction fuel with
  | zero =>
    intro room s t events rows hs hfill
    cases room with
    | zero =>
      simp only [fill, Except.ok.injEq, Prod.mk.injEq] at hfill
      obtain ⟨rfl, rfl⟩ := hfill
      exact ⟨Nat.le_refl _, [], events, quiet_nil, rfl, rfl, hs, fun h0 => absurd h0 (by omega)⟩
    | succ room => simp [fill] at hfill
  | succ fuel ih =>
    intro room s t events rows hs hfill
    cases room with
    | zero =>
      simp only [fill, Except.ok.injEq, Prod.mk.injEq] at hfill
      obtain ⟨rfl, rfl⟩ := hfill
      exact ⟨Nat.le_refl _, [], events, quiet_nil, rfl, rfl, hs, fun h0 => absurd h0 (by omega)⟩
    | succ room =>
      unfold fill at hfill
      split at hfill
      next => cases hfill
      next last u hiter =>
        obtain ⟨rfl, rfl, ht⟩ := h.last hs (Nat.succ_pos _) hiter
        simp only [Except.ok.injEq, Prod.mk.injEq] at hfill
        obtain ⟨rfl, rfl⟩ := hfill
        exact ⟨Nat.zero_le _, [], [], quiet_nil, rfl, rfl, ht, fun _ _ => rfl⟩
      next first u hiter =>
        obtain ⟨hroom, past, left, hne, hquiet, rfl, hrows, hu⟩ :=
          h.more hs (Nat.succ_pos _) hiter
        split at hfill
        next => cases hfill
        next more t' hmore =>
          simp only [Except.ok.injEq, Prod.mk.injEq] at hfill
          obtain ⟨rfl, rfl⟩ := hfill
          obtain ⟨hlen, past', rest, hquiet', rfl, hrows', ht, -⟩ := ih hu hmore
          refine ⟨?_, past ++ past', rest, quiet_append.mpr ⟨hquiet, hquiet'⟩, ?_, ?_, ht, ?_⟩
          · rw [List.length_append]
            omega
          · rw [List.append_assoc]
          · rw [rowsOf_append, hrows, hrows']
          · intro _ hnil
            exact absurd (List.append_eq_nil_iff.mp hnil).1 hne

/-- A call that raises does so because the work fails, given fuel for the whole work. -/
theorem Traces.fill_error (h : Traces iterate Work) :
    ∀ {fuel room : Nat} {s : State} {events : List (Event Row Failure)} {e : Stop Failure},
      Work s events → events.length < fuel → fill iterate fuel room s = .error e →
      ∃ failure, e = .failed failure ∧ outcome events = .error failure := by
  intro fuel
  induction fuel with
  | zero => intro room s events e _ hfuel; exact absurd hfuel (Nat.not_lt_zero _)
  | succ fuel ih =>
    intro room s events e hs hfuel hfill
    cases room with
    | zero => simp [fill] at hfill
    | succ room =>
      unfold fill at hfill
      split at hfill
      next failure hiter =>
        cases hfill
        exact ⟨failure, rfl, h.error hs (Nat.succ_pos _) hiter⟩
      next => cases hfill
      next first u hiter =>
        obtain ⟨-, past, rest, hne, hquiet, rfl, -, hu⟩ := h.more hs (Nat.succ_pos _) hiter
        have hpos : 0 < past.length := List.length_pos_iff.mpr hne
        rw [List.length_append] at hfuel
        split at hfill
        next e' hrest =>
          cases hfill
          obtain ⟨failure, rfl, hfail⟩ := ih hu (by omega) hrest
          refine ⟨failure, rfl, ?_⟩
          rw [outcome_append hquiet, hfail]
          rfl
        next => cases hfill

/-- Calls after the work is done return nothing. -/
theorem Traces.drain_nil (h : Traces iterate Work) {fuel room : Nat} (hfuel : 0 < fuel) :
    ∀ {calls : Nat} {s : State}, Work s [] →
      drain (fill iterate fuel room) calls s = .ok [] := by
  intro calls
  induction calls with
  | zero => intro s _; rfl
  | succ calls ih =>
    intro s hs
    unfold drain
    split
    next e hfill =>
      obtain ⟨failure, -, hfail⟩ := h.fill_error hs hfuel hfill
      cases hfail
    next rows t hfill =>
      obtain ⟨-, past, rest, -, hev, hrows, ht, -⟩ := h.fill_ok hs hfill
      obtain ⟨rfl, rfl⟩ := List.append_eq_nil_iff.mp hev.symm
      rw [ih ht, ← hrows]
      rfl

/-- **Batch rule.**  With fuel and calls for the whole work, and room in every call, the
    calls deliver exactly what the work delivers. -/
theorem Traces.drain_eq (h : Traces iterate Work) {fuel room : Nat} (hroom : 0 < room) :
    ∀ {calls : Nat} {s : State} {events : List (Event Row Failure)}, Work s events →
      events.length < fuel → events.length < calls →
      drain (fill iterate fuel room) calls s = (outcome events).mapError Stop.failed := by
  intro calls
  induction calls with
  | zero => intro s events _ _ hcalls; exact absurd hcalls (Nat.not_lt_zero _)
  | succ calls ih =>
    intro s events hs hfuel hcalls
    unfold drain
    split
    next e hfill =>
      obtain ⟨failure, rfl, hfail⟩ := h.fill_error hs hfuel hfill
      rw [hfail]
      rfl
    next rows t hfill =>
      obtain ⟨-, past, rest, hquiet, rfl, hrows, ht, hprogress⟩ := h.fill_ok hs hfill
      rw [List.length_append] at hfuel hcalls
      have hrest : drain (fill iterate fuel room) calls t =
          (outcome rest).mapError Stop.failed := by
        by_cases hpast : past = []
        · -- no progress: nothing is left, and further calls return nothing
          obtain rfl := hprogress hroom hpast
          rw [h.drain_nil (by omega) ht]
          rfl
        · have hpos : 0 < past.length := List.length_pos_iff.mpr hpast
          exact ih ht (by omega) (by omega)
      rw [hrest, outcome_append hquiet, hrows]
      cases outcome rest <;> rfl

end Rule

end RootLake.Batch

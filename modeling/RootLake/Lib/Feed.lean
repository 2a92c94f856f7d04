import RootLake.Lib.Batch

/-!
# Consumers that can stop

A consumer takes the rows of a list of events one by one until it is full. What a
nested loop does to a consumer is `feed` of the events the loop would produce if nobody
stopped it: `forRange_refines` carries this through one loop, and the consumer that is
full is left alone by everything that follows (`feed_append`).

A consumer with room for a number of rows takes that many, or all there are, or meets
the first failure (`feed_split`).
-/

namespace RootLake.Feed

open Batch

universe u v w x

variable {Row : Type u} {Failure : Type v} {State : Type w} {Model : Type x}

/-- Give the events to a consumer, until it is full or an event fails. -/
def feed (full : State → Bool) (add : State → Row → State) :
    State → List (Event Row Failure) → Except Failure State
  | s, [] => .ok s
  | s, event :: events =>
      if full s then .ok s
      else
        match event with
        | .row r => feed full add (add s r) events
        | .idle => feed full add s events
        | .fail e => .error e

/-- `for (i = first; i < first + count && !full; ++i) body(i)`. -/
def forRange (full : State → Bool) (body : Nat → State → Except Failure State) :
    Nat → Nat → State → Except Failure State
  | 0, _, s => .ok s
  | count + 1, i, s =>
      if full s then .ok s
      else
        match body i s with
        | .error e => .error e
        | .ok s => forRange full body count (i + 1) s

/-- A consumer with room for two takes two of the three rows. -/
example : feed (fun n : Nat => n == 2) (fun n (_ : Unit) => n + 1) 0
    [.row (), .row (), .fail ()] = (.ok 2 : Except Unit Nat) := by
  simp [feed]

example : forRange (fun n : Nat => n == 3) (fun i n => (.ok (n + i) : Except Unit Nat)) 3 1 0 =
    .ok 3 := by
  simp [forRange]

section Feed

variable {full : State → Bool} {add : State → Row → State}

@[simp] theorem feed_nil (s : State) :
    feed full add s ([] : List (Event Row Failure)) = .ok s := rfl

theorem feed_of_full {s : State} (h : full s = true) (events : List (Event Row Failure)) :
    feed full add s events = .ok s := by
  cases events with
  | nil => rfl
  | cons event events => simp only [feed, h, if_true]

theorem feed_row {s : State} (h : full s = false) (r : Row)
    (events : List (Event Row Failure)) :
    feed full add s (.row r :: events) = feed full add (add s r) events := by
  simp only [feed, h, Bool.false_eq_true, if_false]

theorem feed_fail {s : State} (h : full s = false) (e : Failure)
    (events : List (Event Row Failure)) :
    feed full add s (.fail e :: events) = .error e := by
  simp only [feed, h, Bool.false_eq_true, if_false]

theorem feed_append (s : State) (past rest : List (Event Row Failure)) :
    feed full add s (past ++ rest) =
      match feed full add s past with
      | .error e => .error e
      | .ok s => feed full add s rest := by
  induction past generalizing s with
  | nil => rfl
  | cons event past ih =>
    by_cases h : full s
    · rw [feed_of_full h, feed_of_full h]
      exact (feed_of_full h rest).symm
    · simp only [feed, List.cons_append, h, Bool.false_eq_true, if_false]
      cases event with
      | row r => exact ih (add s r)
      | idle => exact ih s
      | fail e => rfl

/-- A consumer that is never full takes every row, or meets the first failure. -/
theorem feed_unbounded (hfull : ∀ s, full s = false) (s : State)
    (events : List (Event Row Failure)) :
    feed full add s events =
      match outcome events with
      | .error e => .error e
      | .ok rows => .ok (rows.foldl add s) := by
  induction events generalizing s with
  | nil => rfl
  | cons event events ih =>
    cases event with
    | row r =>
      rw [feed_row (hfull s), ih, outcome_row]
      cases outcome events <;> rfl
    | idle =>
      rw [outcome_idle, ← ih]
      simp only [feed, hfull, Bool.false_eq_true, if_false]
    | fail e => rw [feed_fail (hfull s)]; rfl

/-- What a property of consumers survives: no failure, and rows one by one. -/
theorem feed_induct {P : State → Prop} (hadd : ∀ s r, P s → P (add s r)) {s t : State}
    (hs : P s) {events : List (Event Row Failure)}
    (h : feed full add s events = .ok t) : P t := by
  induction events generalizing s with
  | nil => exact (Except.ok.inj h) ▸ hs
  | cons event events ih =>
    by_cases hf : full s
    · rw [feed_of_full hf] at h
      exact (Except.ok.inj h) ▸ hs
    · simp only [feed, hf, Bool.false_eq_true, if_false] at h
      cases event with
      | row r => exact ih (hadd s r hs) h
      | idle => exact ih hs h
      | fail e => exact absurd h (by simp)

/-- **A bounded consumer takes a beginning of the events.** Either it meets the first
    failure, or it takes the rows of a beginning without failure and stops at the end
    of the list or when it is full. -/
theorem feed_split {size : State → Nat} {limit : Nat}
    (hfull : ∀ s, full s = decide (limit ≤ size s))
    (hadd : ∀ s r, size (add s r) = size s + 1)
    (events : List (Event Row Failure)) (s : State) :
    (∃ e, feed full add s events = .error e ∧ outcome events = .error e) ∨
    ∃ past rest, events = past ++ rest ∧ Quiet past ∧
      feed full add s events = .ok ((rowsOf past).foldl add s) ∧
      (rest = [] ∨ limit ≤ size s + (rowsOf past).length) := by
  induction events generalizing s with
  | nil => exact .inr ⟨[], [], rfl, quiet_nil, rfl, .inl rfl⟩
  | cons event events ih =>
    by_cases h : full s
    · refine .inr ⟨[], event :: events, rfl, quiet_nil, feed_of_full h _, .inr ?_⟩
      rw [hfull] at h
      simpa using h
    · have hroom : full s = false := by simpa using h
      cases event with
      | row r =>
        rw [feed_row hroom, outcome_row]
        rcases ih (add s r) with ⟨e, hfeed, hout⟩ | ⟨past, rest, rfl, hq, hfeed, hstop⟩
        · exact .inl ⟨e, hfeed, by rw [hout]; rfl⟩
        · refine .inr ⟨.row r :: past, rest, rfl, ?_, hfeed, ?_⟩
          · intro e he
            rcases List.mem_cons.mp he with he | he
            · exact absurd he (by simp)
            · exact hq e he
          · rw [hadd] at hstop
            refine hstop.imp_right fun hle => ?_
            simp only [rowsOf, List.length_cons]
            omega
      | idle =>
        rw [outcome_idle]
        have hidle : feed full add s (.idle :: events) = feed full add s events := by
          simp only [feed, hroom, Bool.false_eq_true, if_false]
        rw [hidle]
        rcases ih s with ⟨e, hfeed, hout⟩ | ⟨past, rest, rfl, hq, hfeed, hstop⟩
        · exact .inl ⟨e, hfeed, hout⟩
        · refine .inr ⟨.idle :: past, rest, rfl, ?_, hfeed, hstop⟩
          intro e he
          rcases List.mem_cons.mp he with he | he
          · exact absurd he (by simp)
          · exact hq e he
      | fail e => exact .inl ⟨e, feed_fail hroom e _, rfl⟩

end Feed

/-! ### Loops -/

/-- Two computations fail alike, or succeed with related results. -/
def Refines (R : State → Model → Prop) :
    Except Failure State → Except Failure Model → Prop
  | .ok s, .ok m => R s m
  | .error e, .error e' => e = e'
  | _, _ => False

theorem Refines.error {R : State → Model → Prop} {r : Except Failure State} {e : Failure}
    (h : Refines R r (.error e)) : r = .error e := by
  cases r with
  | ok s => exact h.elim
  | error e' => exact congrArg _ h

theorem Refines.ok {R : State → Model → Prop} {r : Except Failure State} {m : Model}
    (h : Refines R r (.ok m)) : ∃ s, r = .ok s ∧ R s m := by
  cases r with
  | ok s => exact ⟨s, rfl, h⟩
  | error e' => exact h.elim

theorem Refines.mono {R R' : State → Model → Prop} (hR : ∀ s m, R s m → R' s m)
    {r : Except Failure State} {q : Except Failure Model} (h : Refines R r q) :
    Refines R' r q := by
  cases r <;> cases q <;> first | exact hR _ _ h | exact h

/-- Two loops whose iterations do the same, each with its own index, do the same. -/
theorem forRange_congr {full : State → Bool} {body body' : Nat → State → Except Failure State}
    (count first : Nat) (h : ∀ i s, first ≤ i → i < first + count → body i s = body' i s)
    (s : State) : forRange full body count first s = forRange full body' count first s := by
  induction count generalizing first s with
  | zero => rfl
  | succ count ih =>
    rw [forRange, forRange, h first s (Nat.le_refl first) (by omega)]
    cases body' first s with
    | error e => rfl
    | ok s' => simp only [ih (first + 1) (fun i s hi hlt => h i s (by omega) (by omega))]

section Loop

variable {fullState : State → Bool} {fullModel : Model → Bool} {add : Model → Row → Model}

/-- **The loop rule.** A loop whose iterations give the consumer the events of their
    index gives it the events of all its indices, in order. -/
theorem forRange_refines {R : State → Model → Prop} {body : Nat → State → Except Failure State}
    {events : Nat → List (Event Row Failure)}
    (hfull : ∀ s m, R s m → fullState s = fullModel m) (count first : Nat)
    (hbody : ∀ i s m, first ≤ i → i < first + count → fullModel m = false → R s m →
      Refines R (body i s) (feed fullModel add m (events i))) {s : State} {m : Model}
    (h : R s m) :
    Refines R (forRange fullState body count first s)
      (feed fullModel add m ((List.range' first count).flatMap events)) := by
  induction count generalizing first s m with
  | zero => exact h
  | succ count ih =>
    by_cases hf : fullModel m
    · rw [feed_of_full hf]
      simp only [forRange, hfull s m h, hf, if_true]
      exact h
    · have hroom : fullModel m = false := by simpa using hf
      rw [List.range'_succ, List.flatMap_cons, feed_append]
      simp only [forRange, hfull s m h, hroom, Bool.false_eq_true, if_false]
      have hfirst := hbody first s m (Nat.le_refl first) (by omega) hroom h
      cases hfed : feed fullModel add m (events first) with
      | error e =>
        rw [hfed] at hfirst
        rw [hfirst.error]
        exact rfl
      | ok m' =>
        rw [hfed] at hfirst
        obtain ⟨s', hs', hR⟩ := hfirst.ok
        rw [hs']
        exact ih (first + 1) (fun i s m hi hlt => hbody i s m (by omega) (by omega)) hR

/-- A loop that is entered in the middle: the first iteration gives the consumer the rest
    of its events, the others all of theirs. -/
theorem forRange_refines_from {R : State → Model → Prop}
    {body : Nat → State → Except Failure State} {events : Nat → List (Event Row Failure)}
    (hfull : ∀ s m, R s m → fullState s = fullModel m) {last first : Nat} (hlast : first < last)
    {s : State} (hroom : fullState s = false) {m : Model} {later : List (Event Row Failure)}
    (hfirst : Refines R (body first s) (feed fullModel add m later))
    (hbody : ∀ i s m, first < i → i < last → fullModel m = false → R s m →
      Refines R (body i s) (feed fullModel add m (events i))) :
    Refines R (forRange fullState body (last - first) first s)
      (feed fullModel add m
        (later ++ (List.range' (first + 1) (last - (first + 1))).flatMap events)) := by
  rw [feed_append, show last - first = last - (first + 1) + 1 by omega]
  simp only [forRange, hroom, Bool.false_eq_true, if_false]
  cases hfed : feed fullModel add m later with
  | error e =>
    rw [hfed] at hfirst
    rw [hfirst.error]
    exact rfl
  | ok m' =>
    rw [hfed] at hfirst
    obtain ⟨s', hs', hR⟩ := hfirst.ok
    rw [hs']
    exact forRange_refines hfull _ _
      (fun i s m hi hlt => hbody i s m (by omega) (by omega)) hR

/-- Where an event of a loop comes from. -/
theorem flatMap_range'_split {events : Nat → List (Event Row Failure)} {count first : Nat}
    {past rest : List (Event Row Failure)} {event : Event Row Failure}
    (h : (List.range' first count).flatMap events = past ++ event :: rest) :
    ∃ i before after, first ≤ i ∧ i < first + count ∧
      events i = before ++ event :: after ∧
      rest = after ++ (List.range' (i + 1) (first + count - (i + 1))).flatMap events := by
  induction count generalizing first past with
  | zero => simp at h
  | succ count ih =>
    rw [List.range'_succ, List.flatMap_cons] at h
    rcases List.append_eq_append_iff.mp h with ⟨more, hpast, hmore⟩ | ⟨more, hfirst, hmore⟩
    · obtain ⟨i, before, after, hle, hlt, hi, hrest⟩ := ih hmore
      refine ⟨i, before, after, by omega, by omega, hi, ?_⟩
      rw [hrest, show first + 1 + count - (i + 1) = first + (count + 1) - (i + 1) by omega]
    · cases more with
      | nil =>
        obtain ⟨i, before, after, hle, hlt, hi, hrest⟩ := @ih (first + 1) [] hmore.symm
        refine ⟨i, before, after, by omega, by omega, hi, ?_⟩
        rw [hrest, show first + 1 + count - (i + 1) = first + (count + 1) - (i + 1) by omega]
      | cons event' more =>
        simp only [List.cons_append, List.cons.injEq] at hmore
        obtain ⟨rfl, rfl⟩ := hmore
        refine ⟨first, past, more, Nat.le_refl first, by omega, hfirst, ?_⟩
        rw [show first + (count + 1) - (first + 1) = count by omega]

end Loop

end RootLake.Feed

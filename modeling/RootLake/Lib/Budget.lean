import RootLake.Lib.Batch
import Mathlib.Algebra.BigOperators.Group.Finset.Piecewise

/-!
# Producers that share a row budget

A team of producers takes turns in any order. A turn runs one iteration of a producer,
which reads and changes what the team shares, and a producer whose iteration ends its
work is not asked again. Each producer has its own list of events to perform; all of
them draw the rows they emit from one budget, and a producer that finds the budget used
up gives up the rest of its list.

Whatever the order of the turns, the team emits as many rows as there are, or as many
as the budget allows: this is `Shares.run_eq`.
-/

namespace RootLake.Budget

open Batch

universe u v w x y

variable {W : Type u} {Row : Type v} {Failure : Type w} {Shared : Type x} {Member : Type y}

/-- The state of a team, with the rows emitted so far. -/
structure Team (W : Type u) (Row : Type v) (Shared : Type x) (Member : Type y) where
  shared : Shared
  members : W → Member
  finished : W → Bool
  rows : List Row

variable (act : Shared → Member → Except Failure (Iteration Row (Shared × Member)))

/-- A turn of one producer. -/
def Team.turn [DecidableEq W] (team : Team W Row Shared Member) (w : W) :
    Except Failure (Team W Row Shared Member) :=
  if team.finished w then .ok team
  else
    match act team.shared (team.members w) with
    | .error e => .error e
    | .ok (.more rows (shared, member)) =>
        .ok {
          shared := shared
          members := Function.update team.members w member
          finished := team.finished
          rows := team.rows ++ rows }
    | .ok (.last rows (shared, member)) =>
        .ok {
          shared := shared
          members := Function.update team.members w member
          finished := Function.update team.finished w true
          rows := team.rows ++ rows }

/-- Turns in the given order. -/
def Team.run [DecidableEq W] : List W → Team W Row Shared Member →
    Except Failure (Team W Row Shared Member)
  | [], team => .ok team
  | w :: schedule, team =>
      match team.turn act w with
      | .error e => .error e
      | .ok team => run schedule team

/-- The number of rows that a budget leaves. -/
def allowed (budget : Option Nat) (rows : Nat) : Nat :=
  match budget with
  | none => rows
  | some most => min most rows

/-- **The contract of a member.**  `Granted s n` says that `n` rows have been taken from the
    budget. An iteration performs a non-empty beginning of the member's work, or ends it
    because no row is left in it or none in the budget. -/
structure Shares (Work : Member → List (Event Row Failure) → Prop) (Granted : Shared → Nat → Prop)
    (budget : Option Nat) : Prop where
  within : ∀ {s n most}, Granted s n → budget = some most → n ≤ most
  error : ∀ {s m n events e}, Work m events → Granted s n → act s m = .error e → ¬ Quiet events
  more : ∀ {s m n events rows s' m'}, Work m events → Granted s n →
    act s m = .ok (.more rows (s', m')) →
    ∃ past rest, past ≠ [] ∧ events = past ++ rest ∧ rowsOf past = rows ∧
      Granted s' (n + rows.length) ∧ Work m' rest
  last : ∀ {s m n events rows s' m'}, Work m events → Granted s n →
    act s m = .ok (.last rows (s', m')) →
    rows = [] ∧ Granted s' n ∧ (rowsOf events = [] ∨ budget = some n)

variable {act}
variable {Work : Member → List (Event Row Failure) → Prop} {Granted : Shared → Nat → Prop}
variable {budget : Option Nat}

/-- What the members of a team still have to do, when the team is to come to `total` rows. -/
structure Team.Left [Fintype W] (Work : Member → List (Event Row Failure) → Prop)
    (Granted : Shared → Nat → Prop) (budget : Option Nat) (total : Nat)
    (team : Team W Row Shared Member) (events : W → List (Event Row Failure)) : Prop where
  granted : Granted team.shared team.rows.length
  quiet : ∀ w, Quiet (events w)
  work : ∀ w, team.finished w = false → Work (team.members w) (events w)
  gaveUp : ∀ w, team.finished w = true →
    rowsOf (events w) = [] ∨ ∃ most, budget = some most ∧ most ≤ team.rows.length
  sum : team.rows.length + ∑ w, (rowsOf (events w)).length = total

/-- A bound on the turns a member still needs. -/
def Team.turnsLeft (team : Team W Row Shared Member) (events : W → List (Event Row Failure))
    (w : W) : Nat :=
  if team.finished w then 0 else (events w).length + 1

section

variable [Fintype W] [DecidableEq W]

theorem sum_update (f : W → Nat) (w : W) (n : Nat) :
    ∑ v, Function.update f w n v + f w = ∑ v, f v + n := by
  have hsplit := Finset.sum_sdiff (f := f) (Finset.subset_univ {w})
  rw [Finset.sum_singleton] at hsplit
  rw [Finset.sum_update_of_mem (Finset.mem_univ w), ← hsplit]
  omega

/-- **Step lemma**: a turn keeps the account of the rows, and its member comes closer to its
    end. -/
theorem Shares.turn_spec (h : Shares act Work Granted budget) {total : Nat}
    {team : Team W Row Shared Member} {events : W → List (Event Row Failure)}
    (hteam : team.Left Work Granted budget total events) (w : W) :
    ∃ team' events', team.turn act w = .ok team' ∧
      team'.Left Work Granted budget total events' ∧
      ∀ v, team'.turnsLeft events' v ≤ team.turnsLeft events v - [w].count v := by
  unfold Team.turn
  by_cases hfinished : team.finished w = true
  · rw [if_pos hfinished]
    refine ⟨team, events, rfl, hteam, fun v => ?_⟩
    by_cases hv : w = v
    · subst hv
      unfold Team.turnsLeft
      rw [if_pos hfinished]
      exact Nat.zero_le _
    · rw [List.count_singleton, if_neg (by simpa using hv), Nat.sub_zero]
  rw [if_neg hfinished]
  rw [Bool.not_eq_true] at hfinished
  have hwork := hteam.work w hfinished
  have hleft : team.turnsLeft events w = (events w).length + 1 := by
    unfold Team.turnsLeft
    rw [hfinished]
    rfl
  cases hact : act team.shared (team.members w) with
  | error e => exact absurd (hteam.quiet w) (h.error hwork hteam.granted hact)
  | ok iteration =>
    cases iteration with
    | more rows next =>
      obtain ⟨shared, member⟩ := next
      obtain ⟨past, rest, hpast, hevents, hrows, hgranted, hwork'⟩ :=
        h.more hwork hteam.granted hact
      have hquiet := quiet_append.mp (hevents ▸ hteam.quiet w)
      have hlength : (rowsOf (events w)).length = rows.length + (rowsOf rest).length := by
        rw [hevents, rowsOf_append, hrows, List.length_append]
      refine ⟨_, Function.update events w rest, rfl, ⟨?_, ?_, ?_, ?_, ?_⟩, ?_⟩
      · rw [List.length_append]
        exact hgranted
      · intro v
        by_cases hv : v = w
        · subst hv
          rw [Function.update_self]
          exact hquiet.2
        · rw [Function.update_of_ne hv]
          exact hteam.quiet v
      · intro v hrunning
        dsimp only
        by_cases hv : v = w
        · subst hv
          rw [Function.update_self, Function.update_self]
          exact hwork'
        · rw [Function.update_of_ne hv, Function.update_of_ne hv]
          exact hteam.work v hrunning
      · intro v hdone
        have hv : v ≠ w := by
          rintro rfl
          dsimp only at hdone
          rw [hfinished] at hdone
          cases hdone
        rw [Function.update_of_ne hv]
        rcases hteam.gaveUp v hdone with hnone | ⟨most, hmost, hle⟩
        · exact Or.inl hnone
        · refine Or.inr ⟨most, hmost, ?_⟩
          dsimp only
          rw [List.length_append]
          exact Nat.le_add_right_of_le hle
      · have hlengths : (fun v => (rowsOf (Function.update events w rest v)).length) =
            Function.update (fun v => (rowsOf (events v)).length) w (rowsOf rest).length := by
          funext v
          by_cases hv : v = w
          · subst hv
            simp only [Function.update_self]
          · simp only [Function.update_of_ne hv]
        have hsum : ∑ v, (rowsOf (Function.update events w rest v)).length +
            (rowsOf (events w)).length =
              ∑ v, (rowsOf (events v)).length + (rowsOf rest).length := by
          rw [← sum_update (fun v => (rowsOf (events v)).length) w (rowsOf rest).length, hlengths]
        have htotal := hteam.sum
        dsimp only
        rw [List.length_append]
        omega
      · intro v
        by_cases hv : v = w
        · subst hv
          have hpos : 0 < past.length := List.length_pos_iff.mpr hpast
          rw [hleft, hevents, List.count_singleton_self]
          unfold Team.turnsLeft
          dsimp only
          rw [hfinished, Function.update_self, List.length_append]
          simp only [Bool.false_eq_true, if_false]
          omega
        · have hcount : [w].count v = 0 := List.count_eq_zero.mpr (by simpa using hv)
          unfold Team.turnsLeft
          rw [Function.update_of_ne hv, hcount]
          exact Nat.le_refl _
    | last rows next =>
      obtain ⟨shared, member⟩ := next
      obtain ⟨rfl, hgranted, hend⟩ := h.last hwork hteam.granted hact
      refine ⟨_, events, rfl, ⟨?_, hteam.quiet, ?_, ?_, ?_⟩, ?_⟩
      · dsimp only
        rw [List.append_nil]
        exact hgranted
      · intro v hrunning
        have hv : v ≠ w := by
          rintro rfl
          dsimp only at hrunning
          rw [Function.update_self] at hrunning
          cases hrunning
        dsimp only at hrunning ⊢
        rw [Function.update_of_ne hv] at hrunning ⊢
        exact hteam.work v hrunning
      · intro v hdone
        dsimp only at hdone ⊢
        rw [List.append_nil]
        by_cases hv : v = w
        · subst hv
          rcases hend with hnone | hbudget
          · exact Or.inl hnone
          · exact Or.inr ⟨_, hbudget, Nat.le_refl _⟩
        · rw [Function.update_of_ne hv] at hdone
          exact hteam.gaveUp v hdone
      · dsimp only
        rw [List.append_nil]
        exact hteam.sum
      · intro v
        unfold Team.turnsLeft
        dsimp only
        by_cases hv : v = w
        · subst hv
          simp only [Function.update_self, if_true, Nat.zero_le]
        · have hcount : [w].count v = 0 := List.count_eq_zero.mpr (by simpa using hv)
          simp only [Function.update_of_ne hv, hcount, Nat.sub_zero, Nat.le_refl]

/-- **Run lemma.** -/
theorem Shares.run_spec (h : Shares act Work Granted budget) {total : Nat} (schedule : List W) :
    ∀ {team : Team W Row Shared Member} {events : W → List (Event Row Failure)},
      team.Left Work Granted budget total events →
      ∃ team' events', team.run act schedule = .ok team' ∧
        team'.Left Work Granted budget total events' ∧
        ∀ v, team'.turnsLeft events' v ≤ team.turnsLeft events v - schedule.count v := by
  induction schedule with
  | nil =>
    intro team events hteam
    exact ⟨team, events, rfl, hteam, fun v => Nat.le_refl _⟩
  | cons w schedule ih =>
    intro team events hteam
    obtain ⟨next, events', hturn, hnext, hless⟩ := h.turn_spec hteam w
    obtain ⟨final, events'', hrun, hfinal, hless'⟩ := ih hnext
    refine ⟨final, events'', ?_, hfinal, fun v => ?_⟩
    · unfold Team.run
      rw [hturn]
      exact hrun
    · have hcount : (w :: schedule).count v = schedule.count v + [w].count v := by
        rw [List.count_cons, List.count_singleton]
      have hfirst := hless v
      have hrest := hless' v
      omega

/-- **Budget rule.**  When every member has had enough turns, the team has emitted all its rows,
    or as many as the budget allows. -/
theorem Shares.run_eq (h : Shares act Work Granted budget) {total : Nat}
    {team : Team W Row Shared Member} {events : W → List (Event Row Failure)}
    (hteam : team.Left Work Granted budget total events) {schedule : List W}
    (henough : ∀ w, (events w).length < schedule.count w) :
    ∃ team', team.run act schedule = .ok team' ∧ team'.rows.length = allowed budget total := by
  obtain ⟨final, events', hrun, hfinal, hless⟩ := h.run_spec schedule hteam
  refine ⟨final, hrun, ?_⟩
  have hfinished : ∀ w, final.finished w = true := by
    intro w
    have hleft := hless w
    have hstart : team.turnsLeft events w ≤ (events w).length + 1 := by
      unfold Team.turnsLeft
      split <;> omega
    have hend : final.turnsLeft events' w = 0 := by
      have hcount := henough w
      omega
    unfold Team.turnsLeft at hend
    by_contra hnot
    rw [if_neg hnot] at hend
    cases hend
  have hsum := hfinal.sum
  by_cases hall : ∀ w, rowsOf (events' w) = []
  · have hzero : ∑ w, (rowsOf (events' w)).length = 0 :=
      Finset.sum_eq_zero fun w _ => by rw [hall w, List.length_nil]
    unfold allowed
    cases hbudget : budget with
    | none =>
      dsimp only
      omega
    | some most =>
      have hwithin := h.within hfinal.granted hbudget
      dsimp only
      omega
  · obtain ⟨w, hw⟩ := not_forall.mp hall
    obtain ⟨most, hbudget, hle⟩ := (hfinal.gaveUp w (hfinished w)).resolve_left hw
    have hwithin := h.within hfinal.granted hbudget
    unfold allowed
    rw [hbudget]
    dsimp only
    omega

end

end RootLake.Budget

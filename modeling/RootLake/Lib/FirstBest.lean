/-
  RootLake/Lib/FirstBest.lean
  ===========================
  **The first of the best candidates.**

  A loop that keeps its candidate until another one scores strictly higher ends with the first of
  those that score highest.  Candidates may have no score; then they are passed over.
-/
import Mathlib.Data.List.Induction

namespace RootLake.FirstBest

variable {α : Type} {score : α → Option Nat} {candidates : List α} {best : α}

/-- One candidate against the best so far. -/
def improve (score : α → Option Nat) (best : Option (α × Nat)) (candidate : α) :
    Option (α × Nat) :=
  match score candidate with
  | none => best
  | some new =>
      match best with
      | none => some (candidate, new)
      | some (_, old) => if old < new then some (candidate, new) else best

def firstBest (score : α → Option Nat) (candidates : List α) : Option α :=
  (candidates.foldl (improve score) none).map Prod.fst

/-- The candidate scores higher than all ahead of it, and no less than those behind it. -/
def Leads (score : α → Option Nat) (candidates : List α) (best : α) (points : Nat) : Prop :=
  ∃ before after, candidates = before ++ best :: after ∧ score best = some points ∧
    (∀ other ∈ before, ∀ less ∈ score other, less < points) ∧
      ∀ other ∈ after, ∀ less ∈ score other, less ≤ points

theorem Leads.mem {points : Nat} (h : Leads score candidates best points) : best ∈ candidates := by
  obtain ⟨before, after, rfl, -⟩ := h
  exact List.mem_append_right _ List.mem_cons_self

theorem Leads.le {points : Nat} (h : Leads score candidates best points) {other : α}
    (hother : other ∈ candidates) {less : Nat} (hless : less ∈ score other) : less ≤ points := by
  obtain ⟨before, after, rfl, hbest, hbefore, hafter⟩ := h
  rcases List.mem_append.mp hother with hmem | hmem
  · exact Nat.le_of_lt (hbefore other hmem less hless)
  · rcases List.mem_cons.mp hmem with rfl | hmem
    · exact Nat.le_of_eq (Option.some.inj (hless.symm.trans hbest))
    · exact hafter other hmem less hless

/-- What the loop holds after some candidates. -/
def Holds (score : α → Option Nat) (candidates : List α) : Option (α × Nat) → Prop
  | none => ∀ candidate ∈ candidates, score candidate = none
  | some (best, points) => Leads score candidates best points

theorem Holds.improve {state : Option (α × Nat)} (h : Holds score candidates state)
    (candidate : α) : Holds score (candidates ++ [candidate]) (improve score state candidate) := by
  unfold FirstBest.improve
  cases hnew : score candidate with
  | none =>
    cases state with
    | none =>
      intro other hother
      rcases List.mem_append.mp hother with hmem | hmem
      · exact h other hmem
      · rw [List.mem_singleton.mp hmem, hnew]
    | some held =>
      obtain ⟨before, after, rfl, hbest, hbefore, hafter⟩ := h
      refine ⟨before, after ++ [candidate], by simp, hbest, hbefore, fun other hother => ?_⟩
      rcases List.mem_append.mp hother with hmem | hmem
      · exact hafter other hmem
      · rw [List.mem_singleton.mp hmem, hnew]
        exact fun _ hless => (by cases hless)
  | some new =>
    cases state with
    | none =>
      refine ⟨candidates, [], rfl, hnew, fun other hother less hless => ?_,
        fun _ hother => absurd hother List.not_mem_nil⟩
      rw [h other hother] at hless
      cases hless
    | some held =>
      obtain ⟨best, old⟩ := held
      dsimp only
      split
      · rename_i hlt
        exact ⟨candidates, [], rfl, hnew,
          fun other hother less hless => Nat.lt_of_le_of_lt (h.le hother hless) hlt,
          fun _ hother => absurd hother List.not_mem_nil⟩
      · rename_i hle
        obtain ⟨before, after, rfl, hbest, hbefore, hafter⟩ := h
        refine ⟨before, after ++ [candidate], by simp, hbest, hbefore, fun other hother => ?_⟩
        rcases List.mem_append.mp hother with hmem | hmem
        · exact hafter other hmem
        · rw [List.mem_singleton.mp hmem, hnew]
          intro less hless
          rw [← Option.some.inj hless]
          exact Nat.le_of_not_lt hle

theorem holds_foldl (candidates : List α) :
    Holds score candidates (candidates.foldl (improve score) none) := by
  induction candidates using List.reverseRecOn with
  | nil => exact fun _ hmem => absurd hmem List.not_mem_nil
  | append_singleton candidates candidate ih =>
    rw [List.foldl_append]
    exact ih.improve candidate

theorem leads_of_firstBest (h : firstBest score candidates = some best) :
    ∃ points, Leads score candidates best points := by
  obtain ⟨⟨held, points⟩, hstate, rfl⟩ := Option.map_eq_some_iff.mp h
  have hholds : Holds score candidates (candidates.foldl (improve score) none) :=
    holds_foldl candidates
  rw [hstate] at hholds
  exact ⟨points, hholds⟩

theorem firstBest_eq_none_iff :
    firstBest score candidates = none ↔ ∀ candidate ∈ candidates, score candidate = none := by
  have hholds : Holds score candidates (candidates.foldl (improve score) none) :=
    holds_foldl candidates
  rw [firstBest, Option.map_eq_none_iff]
  constructor
  · intro hstate
    rwa [hstate] at hholds
  · intro hnone
    cases hstate : candidates.foldl (improve score) none with
    | none => rfl
    | some held =>
      rw [hstate] at hholds
      have hscored := hnone held.1 (Leads.mem hholds)
      obtain ⟨-, -, -, hbest, -⟩ := hholds
      rw [hbest] at hscored
      cases hscored

theorem firstBest_isSome_iff :
    (firstBest score candidates).isSome ↔ ∃ candidate ∈ candidates, (score candidate).isSome := by
  rw [← not_iff_not, Option.not_isSome_iff_eq_none, firstBest_eq_none_iff]
  simp only [not_exists, not_and, Option.not_isSome_iff_eq_none]

/-! ### What the winner is like -/

/-- Some candidate of a kind scores higher than the others ahead of it, and no less than the
    others behind it. -/
def Prevails (score : α → Option Nat) (kind : α → Prop) (candidates : List α) : Prop :=
  ∃ before champion after points, candidates = before ++ champion :: after ∧ kind champion ∧
    score champion = some points ∧
      (∀ other ∈ before, ¬ kind other → ∀ less ∈ score other, less < points) ∧
        ∀ other ∈ after, ¬ kind other → ∀ less ∈ score other, less ≤ points

/-- **The winner is of the kind that prevails.** -/
theorem kind_firstBest_iff {kind : α → Prop} (h : firstBest score candidates = some best) :
    kind best ↔ Prevails score kind candidates := by
  obtain ⟨points, before, after, rfl, hbest, hbefore, hafter⟩ := leads_of_firstBest h
  constructor
  · intro hkind
    exact ⟨before, best, after, points, rfl, hkind, hbest,
      fun other hother _ => hbefore other hother, fun other hother _ => hafter other hother⟩
  · rintro ⟨ahead, champion, behind, more, hsplit, hkind, hchampion, hahead, hbehind⟩
    by_contra hother
    -- the champion is the winner, or ahead of it, or behind it
    rcases List.append_eq_append_iff.mp hsplit with
      ⟨between, hbetween, hrest⟩ | ⟨between, hbetween, hrest⟩
    · cases between with
      | nil =>
        rw [List.nil_append] at hrest
        rw [(List.cons.inj hrest).1] at hother
        exact hother hkind
      | cons first between =>
        obtain ⟨rfl, htail⟩ := List.cons.inj hrest
        have hless : points < more := by
          refine hahead best ?_ hother points hbest
          rw [hbetween]
          exact List.mem_append_right _ List.mem_cons_self
        have hle : more ≤ points := by
          refine hafter champion ?_ more hchampion
          rw [htail]
          exact List.mem_append_right _ List.mem_cons_self
        omega
    · cases between with
      | nil =>
        rw [List.nil_append] at hrest
        rw [← (List.cons.inj hrest).1] at hother
        exact hother hkind
      | cons first between =>
        obtain ⟨rfl, htail⟩ := List.cons.inj hrest
        have hless : more < points := by
          refine hbefore champion ?_ more hchampion
          rw [hbetween]
          exact List.mem_append_right _ List.mem_cons_self
        have hle : points ≤ more := by
          refine hbehind best ?_ hother points hbest
          rw [htail]
          exact List.mem_append_right _ List.mem_cons_self
        omega

end RootLake.FirstBest

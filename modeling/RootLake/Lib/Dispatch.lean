import RootLake.Lib.Runs
import Mathlib.Algebra.BigOperators.Group.Finset.Piecewise
import Mathlib.Data.Fintype.Basic
import Mathlib.Algebra.Order.Group.Multiset
import Mathlib.Tactic.Abel

/-!
# Handing out work in batches

Workers draw batches of items from a shared pool, one batch at a time, and take the
items of the batch in their hand one by one. Draws and takes of different workers
interleave freely. Whatever the order, an item is in one place: taken, in a hand, or
in the pool (`Pool.items_of_reachable`).
-/

namespace RootLake.Dispatch

open RootLake.Runs

universe u v

variable {W : Type u} {α : Type v} [DecidableEq W]

/-- Batches not yet drawn, the hand of every worker, and the items taken so far. -/
structure Pool (W : Type u) (α : Type v) where
  batches : List (List α)
  hand : W → List α
  taken : List α

/-- One action of a worker. -/
inductive Pool.Step : Pool W α → W → Pool W α → Prop where
  | draw {p : Pool W α} {w : W} {batch : List α} {rest : List (List α)} :
      p.batches = batch :: rest → p.hand w = [] →
      Step p w { p with batches := rest, hand := Function.update p.hand w batch }
  | take {p : Pool W α} {w : W} {item : α} {more : List α} :
      p.hand w = item :: more →
      Step p w { p with hand := Function.update p.hand w more, taken := p.taken ++ [item] }
  | idle {p : Pool W α} {w : W} : p.batches = [] → p.hand w = [] → Step p w p

/-- The runs that hand out `work`. -/
def dispatch (W : Type u) [DecidableEq W] (work : List (List α)) : System (Pool W α) W where
  init p := p = { batches := work, hand := fun _ => [], taken := [] }
  step := Pool.Step

variable [Fintype W]

/-- Everything in the three places. -/
def Pool.items (p : Pool W α) : Multiset α :=
  (p.taken : Multiset α) + ∑ w, (p.hand w : Multiset α) + (p.batches.flatten : Multiset α)

/-- Putting a new hand in place of an old one. -/
theorem sum_hands_update (hand : W → List α) (w : W) (new : List α) :
    ∑ v, (Function.update hand w new v : Multiset α) + (hand w : Multiset α) =
      ∑ v, (hand v : Multiset α) + (new : Multiset α) := by
  classical
  have hnew := Finset.add_sum_erase Finset.univ
    (fun v => (Function.update hand w new v : Multiset α)) (Finset.mem_univ w)
  have hold := Finset.add_sum_erase Finset.univ
    (fun v => (hand v : Multiset α)) (Finset.mem_univ w)
  have hrest : ∑ v ∈ Finset.univ.erase w, (Function.update hand w new v : Multiset α) =
      ∑ v ∈ Finset.univ.erase w, (hand v : Multiset α) := by
    refine Finset.sum_congr rfl ?_
    intro v hv
    rw [Function.update_of_ne (Finset.ne_of_mem_erase hv)]
  rw [Function.update_self, hrest] at hnew
  rw [← hnew, ← hold]
  abel

/-- An action moves items and neither makes nor drops one. -/
theorem Pool.Step.items_eq {p q : Pool W α} {w : W} (h : Pool.Step p w q) :
    q.items = p.items := by
  cases h with
  | @draw batch rest hbatches hhand =>
    have hsum := sum_hands_update p.hand w batch
    rw [hhand, Multiset.coe_nil, add_zero] at hsum
    unfold Pool.items
    dsimp only
    rw [hsum, hbatches, List.flatten_cons, ← Multiset.coe_add]
    abel
  | @take item more hhand =>
    have hsum := sum_hands_update p.hand w more
    rw [hhand, ← Multiset.cons_coe] at hsum
    have hone : ∑ v, (Function.update p.hand w more v : Multiset α) + {item} =
        ∑ v, (p.hand v : Multiset α) := by
      refine add_right_cancel (b := (more : Multiset α)) ?_
      rw [add_assoc, Multiset.singleton_add]
      exact hsum
    unfold Pool.items
    dsimp only
    rw [← hone, ← Multiset.coe_add, Multiset.coe_singleton]
    abel
  | idle _ _ => rfl

/-- **Conservation**: at every moment of every run the three places hold the work. -/
theorem Pool.items_of_reachable {work : List (List α)} {p : Pool W α}
    (h : (dispatch W work).Reachable p) : p.items = (work.flatten : Multiset α) := by
  refine System.Reachable.invariant (I := fun q => q.items = (work.flatten : Multiset α)) h ?_ ?_
  · rintro _ rfl
    simp [Pool.items]
  · intro s l t hs hstep
    exact (Pool.Step.items_eq hstep).trans hs

/-- What a worker has in hand is work. -/
theorem Pool.mem_work_of_mem_hand {work : List (List α)} {p : Pool W α}
    (h : (dispatch W work).Reachable p) {w : W} {item : α} (hitem : item ∈ p.hand w) :
    item ∈ work.flatten := by
  rw [← Multiset.mem_coe, ← Pool.items_of_reachable h]
  unfold Pool.items
  refine Multiset.mem_add.mpr (Or.inl (Multiset.mem_add.mpr (Or.inr ?_)))
  exact Multiset.mem_sum.mpr ⟨w, Finset.mem_univ w, Multiset.mem_coe.mpr hitem⟩

/-- Nothing is taken that is not work, and nothing twice. -/
theorem Pool.taken_subperm_of_reachable {work : List (List α)} {p : Pool W α}
    (h : (dispatch W work).Reachable p) : p.taken.Subperm work.flatten := by
  have hitems := Pool.items_of_reachable h
  rw [← Multiset.coe_le, ← hitems]
  unfold Pool.items
  exact (Multiset.le_add_right _ _).trans (Multiset.le_add_right _ _)

/-- When the pool and all hands are empty, the work has been taken. -/
theorem Pool.taken_perm_of_finished {work : List (List α)} {p : Pool W α}
    (h : (dispatch W work).Reachable p) (hbatches : p.batches = [])
    (hhands : ∀ w, p.hand w = []) : p.taken.Perm work.flatten := by
  have hitems := Pool.items_of_reachable h
  rw [← Multiset.coe_eq_coe, ← hitems]
  simp [Pool.items, hbatches, hhands]

end RootLake.Dispatch

import Mathlib.Data.List.Basic

/-!
# Searching an ordered list

The halving search of the standard library for the first element that satisfies a test,
in a list where every element behind one that does satisfies it too. Searching for the
first element greater than a value is the test of being greater.
-/

namespace RootLake.Search

variable {α : Type}

/-- The loop: the first position from `first` on, of `count` many, that passes the test. -/
def partitionFrom (p : Nat → Bool) (first count : Nat) : Nat :=
  if 0 < count then
    if p (first + count / 2) then partitionFrom p first (count / 2)
    else partitionFrom p (first + count / 2 + 1) (count - count / 2 - 1)
  else first
  termination_by count

/-- The position of the first element that passes, or the length of the list. -/
def partitionPoint (p : α → Bool) (values : List α) : Nat :=
  partitionFrom (fun i => values[i]?.any p) 0 values.length

/-- The loop ends at the only place where the test turns, when it turns once. -/
theorem partitionFrom_spec (p : Nat → Bool) (first count : Nat)
    (hmono : ∀ i j, i ≤ j → j < first + count → p i = true → p j = true) :
    first ≤ partitionFrom p first count ∧ partitionFrom p first count ≤ first + count ∧
      ∀ i, first ≤ i → i < first + count →
        (p i = true ↔ partitionFrom p first count ≤ i) := by
  induction first, count using partitionFrom.induct p with
  | case1 first count hpos hp ih =>
    obtain ⟨hlow, hhigh, hiff⟩ := ih fun i j hij hj => hmono i j hij (by omega)
    rw [partitionFrom, if_pos hpos, if_pos hp]
    refine ⟨hlow, by omega, ?_⟩
    intro i hfirst hlast
    by_cases hbefore : i < first + count / 2
    · exact hiff i hfirst hbefore
    · exact iff_of_true (hmono _ i (by omega) hlast hp) (by omega)
  | case2 first count hpos hp ih =>
    obtain ⟨hlow, hhigh, hiff⟩ := ih fun i j hij hj => hmono i j hij (by omega)
    rw [partitionFrom, if_pos hpos, if_neg hp]
    refine ⟨by omega, by omega, ?_⟩
    intro i hfirst hlast
    by_cases hbehind : first + count / 2 + 1 ≤ i
    · exact hiff i hbehind (by omega)
    · exact iff_of_false (fun hi => hp (hmono i _ (by omega) (by omega) hi)) (by omega)
  | case3 first count hzero =>
    rw [partitionFrom, if_neg hzero]
    refine ⟨Nat.le_refl _, by omega, ?_⟩
    intro i hfirst hlast
    omega

/-- **The search is exact**: in a list where the test turns once, an element passes just when
    it stands at the position found or behind it. -/
theorem partitionPoint_spec {p : α → Bool} {values : List α}
    (hmono : values.Pairwise fun a b => p a = true → p b = true) :
    partitionPoint p values ≤ values.length ∧
      ∀ i x, values[i]? = some x → (p x = true ↔ partitionPoint p values ≤ i) := by
  have hturns : ∀ i j, i ≤ j → j < 0 + values.length →
      values[i]?.any p = true → values[j]?.any p = true := by
    intro i j hij hj hi
    rcases Nat.lt_or_eq_of_le hij with hlt | rfl
    · have hpair := List.pairwise_iff_getElem.mp hmono i j (by omega) (by omega) hlt
      rw [List.getElem?_eq_getElem (by omega)] at hi ⊢
      exact hpair hi
    · exact hi
  obtain ⟨-, hle, hiff⟩ := partitionFrom_spec _ 0 values.length hturns
  rw [Nat.zero_add] at hle
  refine ⟨hle, ?_⟩
  intro i x hx
  obtain ⟨hlength, -⟩ := List.getElem?_eq_some_iff.mp hx
  have hi := hiff i (Nat.zero_le i) (by omega)
  rw [hx] at hi
  exact hi

end RootLake.Search

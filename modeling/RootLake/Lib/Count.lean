import Mathlib.Algebra.Order.Ring.Nat
import Mathlib.Data.List.Count
import Mathlib.Algebra.BigOperators.Group.List.Basic

/-!
# Counting in lists

Schedules are judged by how often something is done, so a schedule is a list and the
statement is about `List.countP`. When the elements that count exclude each other, the
count is the indicator of there being one. Rows of a join are counted too: each row comes as
often as it has partners.
-/

namespace RootLake.Count

universe u v

variable {α : Type u} {β : Type v}

/-- Elements that exclude each other are counted at most once. -/
theorem countP_of_exclusive {p : α → Bool} {l : List α}
    (h : l.Pairwise fun a b => p a = true → p b = true → False) :
    l.countP p = if ∃ a ∈ l, p a = true then 1 else 0 := by
  induction l with
  | nil => simp
  | cons a l ih =>
    obtain ⟨hhead, htail⟩ := List.pairwise_cons.mp h
    rw [List.countP_cons, ih htail]
    by_cases hp : p a = true
    · have hnone : ¬ ∃ b ∈ l, p b = true := by
        rintro ⟨b, hmem, hb⟩
        exact hhead b hmem hp hb
      have hsome : ∃ b ∈ a :: l, p b = true := ⟨a, List.mem_cons_self, hp⟩
      rw [if_neg hnone, if_pos hsome, if_pos hp]
    · have hiff : (∃ b ∈ a :: l, p b = true) ↔ ∃ b ∈ l, p b = true := by
        constructor
        · rintro ⟨b, hmem, hb⟩
          rcases List.mem_cons.mp hmem with rfl | hmem
          · exact absurd hb hp
          · exact ⟨b, hmem, hb⟩
        · rintro ⟨b, hmem, hb⟩
          exact ⟨b, List.mem_cons_of_mem _ hmem, hb⟩
      rw [if_neg hp, Nat.add_zero]
      simp only [hiff]

/-- Counting after a partial map. -/
theorem countP_filterMap (f : α → Option β) (p : β → Bool) (l : List α) :
    (l.filterMap f).countP p = l.countP fun a => (f a).any p := by
  induction l with
  | nil => rfl
  | cons a l ih =>
    rw [List.filterMap_cons, List.countP_cons, ← ih]
    cases f a with
    | none => simp
    | some b => rw [List.countP_cons]; rfl

/-- A sum of indicators is a count. -/
theorem sum_map_indicator (p : α → Bool) (l : List α) :
    (l.map fun a => if p a = true then 1 else 0).sum = l.countP p := by
  induction l with
  | nil => rfl
  | cons a l ih => rw [List.map_cons, List.sum_cons, ih, List.countP_cons, Nat.add_comm]

/-- Elements that are repeated each as often as is said. -/
theorem count_flatMap_replicate [DecidableEq α] (times : α → Nat) (l : List α) (a : α) :
    (l.flatMap fun b => List.replicate (times b) b).count a = l.count a * times a := by
  induction l with
  | nil => exact (Nat.zero_mul _).symm
  | cons b l ih =>
    rw [List.flatMap_cons, List.count_append, ih, List.count_replicate, List.count_cons]
    by_cases hb : b = a
    · subst hb
      rw [if_pos (beq_self_eq_true b), if_pos (beq_self_eq_true b), Nat.add_mul, Nat.one_mul,
        Nat.add_comm]
    · have hne : (b == a) = false := beq_eq_false_iff_ne.mpr hb
      rw [hne, if_neg Bool.false_ne_true, if_neg Bool.false_ne_true, Nat.zero_add, Nat.add_zero]

/-- An element that is repeated as often for every element of a list. -/
theorem flatMap_replicate_const (times : Nat) (b : β) (l : List α) :
    (l.flatMap fun _ => List.replicate times b) = List.replicate (l.length * times) b := by
  induction l with
  | nil => rw [List.length_nil, Nat.zero_mul]; rfl
  | cons a l ih =>
    rw [List.flatMap_cons, ih, List.replicate_append_replicate, List.length_cons, Nat.succ_mul,
      Nat.add_comm]

/-! ### Sums over parts of a list -/

theorem sum_filter_le {p q : α → Bool} (f : α → Nat) {l : List α}
    (hpq : ∀ a ∈ l, p a = true → q a = true) :
    ((l.filter p).map f).sum ≤ ((l.filter q).map f).sum := by
  induction l with
  | nil => exact Nat.le_refl _
  | cons a l ih =>
    have htail := ih fun b hb => hpq b (List.mem_cons_of_mem _ hb)
    by_cases hp : p a = true
    · rw [List.filter_cons_of_pos hp, List.filter_cons_of_pos (hpq a List.mem_cons_self hp),
        List.map_cons, List.map_cons, List.sum_cons, List.sum_cons]
      exact Nat.add_le_add_left htail _
    · rw [List.filter_cons_of_neg hp]
      by_cases hq : q a = true
      · rw [List.filter_cons_of_pos hq, List.map_cons, List.sum_cons]
        omega
      · rwa [List.filter_cons_of_neg hq]

/-- A part that has one element more has a sum that is larger by it. -/
theorem sum_filter_add_le {p q : α → Bool} (f : α → Nat) {l : List α} {a : α} (hmem : a ∈ l)
    (hpq : ∀ b ∈ l, p b = true → q b = true) (hp : ¬ p a = true) (hq : q a = true) :
    ((l.filter p).map f).sum + f a ≤ ((l.filter q).map f).sum := by
  induction l with
  | nil => exact absurd hmem List.not_mem_nil
  | cons b l ih =>
    have htail : ∀ c ∈ l, p c = true → q c = true := fun c hc => hpq c (List.mem_cons_of_mem _ hc)
    rcases List.mem_cons.mp hmem with rfl | hmem
    · have hle := sum_filter_le f htail
      rw [List.filter_cons_of_neg hp, List.filter_cons_of_pos hq, List.map_cons, List.sum_cons]
      omega
    · have hle := ih hmem htail
      by_cases hb : p b = true
      · rw [List.filter_cons_of_pos hb, List.filter_cons_of_pos (hpq b List.mem_cons_self hb),
          List.map_cons, List.map_cons, List.sum_cons, List.sum_cons]
        omega
      · rw [List.filter_cons_of_neg hb]
        by_cases hqb : q b = true
        · rw [List.filter_cons_of_pos hqb, List.map_cons, List.sum_cons]
          omega
        · rwa [List.filter_cons_of_neg hqb]

end RootLake.Count

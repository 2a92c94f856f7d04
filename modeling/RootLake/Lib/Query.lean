import Mathlib.Data.List.Dedup
import Mathlib.Data.List.Sort
import Mathlib.Algebra.Order.Ring.Nat

/-!
# Ordered queries

What a query promises about the rows it returns: `ORDER BY` puts them in an order of their
keys and says nothing about rows whose keys tie, and `DISTINCT` keeps one row for each
projected value without saying which. A result is determined by its keys when no two of them
are equal.
-/

namespace RootLake.Query

variable {α β κ : Type} [LinearOrder κ]

/-- `SELECT … ORDER BY key`. -/
structure SelectOrdered (key : α → κ) (rows result : List α) : Prop where
  perm : result.Perm rows
  sorted : result.Pairwise fun a b => key a ≤ key b

/-- `SELECT DISTINCT project … ORDER BY key`. -/
structure SelectDistinct (project : α → β) (key : α → κ) (rows result : List α) : Prop where
  mem : ∀ row ∈ result, row ∈ rows
  nodup : (result.map project).Nodup
  covers : ∀ row ∈ rows, project row ∈ result.map project
  sorted : result.Pairwise fun a b => key a ≤ key b

/-! ### Results exist -/

theorem exists_selectOrdered (key : α → κ) (rows : List α) :
    ∃ result, SelectOrdered key rows result := by
  refine ⟨rows.mergeSort fun a b => decide (key a ≤ key b), List.mergeSort_perm _ _, ?_⟩
  have htrans : ∀ a b c : α, decide (key a ≤ key b) = true → decide (key b ≤ key c) = true →
      decide (key a ≤ key c) = true := fun a b c hab hbc =>
    decide_eq_true (le_trans (of_decide_eq_true hab) (of_decide_eq_true hbc))
  have htotal : ∀ a b : α, (decide (key a ≤ key b) || decide (key b ≤ key a)) = true := by
    intro a b
    rw [Bool.or_eq_true, decide_eq_true_eq, decide_eq_true_eq]
    exact le_total (key a) (key b)
  have hsorted := List.pairwise_mergeSort htrans htotal rows
  exact hsorted.imp fun h => of_decide_eq_true h

/-- One row for each projected value. -/
theorem exists_representatives (project : α → β) (rows : List α) :
    ∃ chosen : List α, (∀ row ∈ chosen, row ∈ rows) ∧ (chosen.map project).Nodup ∧
      ∀ row ∈ rows, project row ∈ chosen.map project := by
  classical
  induction rows with
  | nil => exact ⟨[], fun _ h => h, List.nodup_nil, fun _ h => absurd h List.not_mem_nil⟩
  | cons row rows ih =>
    obtain ⟨chosen, hmem, hnodup, hcovers⟩ := ih
    by_cases hknown : project row ∈ chosen.map project
    · refine ⟨chosen, fun r hr => List.mem_cons_of_mem _ (hmem r hr), hnodup, fun r hr => ?_⟩
      rcases List.mem_cons.mp hr with rfl | hr
      · exact hknown
      · exact hcovers r hr
    · refine ⟨row :: chosen, fun r hr => ?_, List.nodup_cons.mpr ⟨hknown, hnodup⟩, fun r hr => ?_⟩
      · rcases List.mem_cons.mp hr with rfl | hr
        · exact List.mem_cons_self
        · exact List.mem_cons_of_mem _ (hmem r hr)
      · rcases List.mem_cons.mp hr with rfl | hr
        · exact List.mem_cons_self
        · exact List.mem_cons_of_mem _ (hcovers r hr)

theorem exists_selectDistinct (project : α → β) (key : α → κ) (rows : List α) :
    ∃ result, SelectDistinct project key rows result := by
  obtain ⟨chosen, hmem, hnodup, hcovers⟩ := exists_representatives project rows
  obtain ⟨result, hperm, hsorted⟩ := exists_selectOrdered key chosen
  have hmap := hperm.map project
  exact ⟨result, fun row hrow => hmem row (hperm.mem_iff.mp hrow), hmap.nodup_iff.mpr hnodup,
    fun row hrow => hmap.mem_iff.mpr (hcovers row hrow), hsorted⟩

/-! ### Results that are determined -/

theorem nodup_keys {key : α → κ} {rows : List α}
    (h : rows.Pairwise fun a b => key a < key b) : (rows.map key).Nodup :=
  List.pairwise_map.mpr (h.imp fun hlt => ne_of_lt hlt)

/-- Rows in the order of keys without a tie are the only result. -/
theorem SelectOrdered.eq_of_strict {key : α → κ} {rows result : List α}
    (h : SelectOrdered key rows result) (hstrict : rows.Pairwise fun a b => key a < key b) :
    result = rows := by
  refine List.Perm.eq_of_pairwise (fun a b ha hb hab hba => ?_) h.sorted
    (hstrict.imp fun hlt => le_of_lt hlt) h.perm
  exact List.inj_on_of_nodup_map (nodup_keys hstrict) (h.perm.mem_iff.mp ha) hb
    (le_antisymm hab hba)

/-- When the rows are those of a list in strict order, with different projections, that list is
    the only result, however often each row is stored. -/
theorem SelectDistinct.eq_of_strict {project : α → β} {key : α → κ} {rows result ordered : List α}
    (h : SelectDistinct project key rows result) (hrows : ∀ row, row ∈ rows ↔ row ∈ ordered)
    (hproject : (ordered.map project).Nodup)
    (hstrict : ordered.Pairwise fun a b => key a < key b) : result = ordered := by
  have hperm : result.Perm ordered := by
    refine (List.perm_ext_iff_of_nodup h.nodup.of_map hproject.of_map).mpr fun row =>
      ⟨fun hrow => (hrows row).mp (h.mem row hrow), fun hrow => ?_⟩
    obtain ⟨other, hother, heq⟩ := List.mem_map.mp (h.covers row ((hrows row).mpr hrow))
    have hmem := (hrows other).mp (h.mem other hother)
    rwa [← List.inj_on_of_nodup_map hproject hmem hrow heq]
  exact SelectOrdered.eq_of_strict ⟨hperm, h.sorted⟩ hstrict

/-- Selecting distinct rows orders the rows that are there, however often each is stored. -/
theorem selectDistinct_iff {key : α → κ} {rows ordered result : List α}
    (hrows : ∀ row, row ∈ rows ↔ row ∈ ordered) (hnodup : ordered.Nodup) :
    SelectDistinct id key rows result ↔ SelectOrdered key ordered result := by
  constructor
  · intro h
    have hresult : result.Nodup := by
      have := h.nodup
      rwa [List.map_id] at this
    refine ⟨(List.perm_ext_iff_of_nodup hresult hnodup).mpr fun row => ⟨fun hrow => ?_, fun hrow => ?_⟩,
      h.sorted⟩
    · exact (hrows row).mp (h.mem row hrow)
    · have := h.covers row ((hrows row).mpr hrow)
      rwa [List.map_id, id] at this
  · rintro ⟨hperm, hsorted⟩
    refine ⟨fun row hrow => (hrows row).mpr (hperm.mem_iff.mp hrow), ?_, fun row hrow => ?_, hsorted⟩
    · rw [List.map_id]
      exact hperm.nodup_iff.mpr hnodup
    · rw [List.map_id, id]
      exact hperm.mem_iff.mpr ((hrows row).mp hrow)

/-! ### Ties -/

/-- Rows in order are in strict order or have a tie between neighbours. -/
theorem exists_tie {key : α → κ} {rows : List α}
    (hsorted : rows.Pairwise fun a b => key a ≤ key b)
    (htie : ¬ rows.Pairwise fun a b => key a < key b) :
    ∃ before a b behind, rows = before ++ a :: b :: behind ∧ key a = key b := by
  induction rows with
  | nil => exact absurd List.Pairwise.nil htie
  | cons a rows ih =>
    obtain ⟨hfirst, hrest⟩ := List.pairwise_cons.mp hsorted
    cases rows with
    | nil => exact absurd (List.pairwise_singleton _ _) htie
    | cons b behind =>
      by_cases hkeys : key a = key b
      · exact ⟨[], a, b, behind, rfl, hkeys⟩
      · have hless : key a < key b := lt_of_le_of_ne (hfirst b List.mem_cons_self) hkeys
        have htie' : ¬ (b :: behind).Pairwise fun a b => key a < key b := by
          intro hstrict
          refine htie (List.pairwise_cons.mpr ⟨fun c hc => ?_, hstrict⟩)
          rcases List.mem_cons.mp hc with rfl | hc
          · exact hless
          · exact lt_of_lt_of_le hless ((List.pairwise_cons.mp hrest).1 c hc)
        obtain ⟨before, c, d, behind', heq, hkeys'⟩ := ih hrest htie'
        exact ⟨a :: before, c, d, behind', by rw [heq, List.cons_append], hkeys'⟩

/-- Rows that tie may come in another order. -/
theorem SelectOrdered.exists_other {key : α → κ} {rows result : List α}
    (h : SelectOrdered key rows result) (hnodup : rows.Nodup)
    (htie : ¬ result.Pairwise fun a b => key a < key b) :
    ∃ other, SelectOrdered key rows other ∧ other ≠ result := by
  obtain ⟨before, a, b, behind, rfl, hkeys⟩ := exists_tie h.sorted htie
  have hne : a ≠ b := by
    have hresult := h.perm.nodup_iff.mpr hnodup
    have htail := (List.nodup_append.mp hresult).2.1
    rintro rfl
    exact (List.nodup_cons.mp htail).1 List.mem_cons_self
  refine ⟨before ++ b :: a :: behind, ⟨?_, ?_⟩, ?_⟩
  · exact (List.Perm.append_left before (List.Perm.swap a b behind)).trans h.perm
  · -- the keys are the same list
    have hsame : (before ++ b :: a :: behind).map key = (before ++ a :: b :: behind).map key := by
      simp only [List.map_append, List.map_cons, hkeys]
    rw [← List.pairwise_map, hsame, List.pairwise_map]
    exact h.sorted
  · intro heq
    exact hne (List.cons.inj (List.append_cancel_left heq)).1.symm

/-! ### The first match in a sorted list -/

section

variable {key : α → κ} {f : α → Option β}

/-- The first match in a list with the greatest keys first is the match with the greatest key. -/
theorem findSome?_eq_of_greatest {l : List α} (hsorted : l.Pairwise fun a b => key b ≤ key a)
    {a : α} (ha : a ∈ l) {v : β} (hv : f a = some v)
    (hgreatest : ∀ b ∈ l, (f b).isSome → b ≠ a → key b < key a) : l.findSome? f = some v := by
  have hsome : (l.findSome? f).isSome :=
    List.findSome?_isSome_iff.mpr ⟨a, ha, by rw [hv, Option.isSome_some]⟩
  obtain ⟨w, hw⟩ := Option.isSome_iff_exists.mp hsome
  obtain ⟨before, b, behind, rfl, hb, hnone⟩ := List.findSome?_eq_some_iff.mp hw
  by_cases hab : b = a
  · rw [hw, ← hb, hab, hv]
  · have hlt := hgreatest b (List.mem_append_right _ List.mem_cons_self)
      (by rw [hb, Option.isSome_some]) hab
    rcases List.mem_append.mp ha with ha | ha
    · rw [hnone a ha] at hv
      cases hv
    · rcases List.mem_cons.mp ha with rfl | ha
      · exact absurd rfl hab
      · have hle := (List.pairwise_cons.mp (List.pairwise_append.mp hsorted).2.1).1 a ha
        exact absurd hlt (not_lt_of_ge hle)

/-- No match has a greater key than the first one. -/
theorem key_le_of_findSome? {l : List α} (hsorted : l.Pairwise fun a b => key b ≤ key a) {v : β}
    (h : l.findSome? f = some v) :
    ∃ a ∈ l, f a = some v ∧ ∀ b ∈ l, (f b).isSome → key b ≤ key a := by
  obtain ⟨before, a, behind, rfl, ha, hnone⟩ := List.findSome?_eq_some_iff.mp h
  refine ⟨a, List.mem_append_right _ List.mem_cons_self, ha, fun b hb hsome => ?_⟩
  rcases List.mem_append.mp hb with hb | hb
  · rw [hnone b hb] at hsome
    cases hsome
  · rcases List.mem_cons.mp hb with rfl | hb
    · exact le_refl _
    · exact (List.pairwise_cons.mp (List.pairwise_append.mp hsorted).2.1).1 b hb

end

end RootLake.Query

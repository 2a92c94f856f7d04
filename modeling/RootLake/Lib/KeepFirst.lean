import Mathlib.Data.List.Nodup
import Mathlib.Data.List.Basic

/-!
# The first of every key

`keepFirst` goes through a list and keeps the elements whose key has not been seen. Nothing is
dropped exactly if the keys are pairwise different (`length_keepFirst_iff`), and going through
elements whose keys have all been seen changes nothing (`keepFirst_append_seen`).

`findSome?_zipIdx` is the search for the first position with an answer.
-/

namespace RootLake.KeepFirst

universe u v

variable {α : Type u} {κ : Type v} [DecidableEq κ] (key : α → κ)

def addFirst (kept : List α) (x : α) : List α :=
  if key x ∈ kept.map key then kept else kept ++ [x]

def keepFirst (xs : List α) : List α := xs.foldl (addFirst key) []

variable {key}

theorem addFirst_seen {kept : List α} {x : α} (h : key x ∈ kept.map key) :
    addFirst key kept x = kept := if_pos h

theorem addFirst_new {kept : List α} {x : α} (h : key x ∉ kept.map key) :
    addFirst key kept x = kept ++ [x] := if_neg h

theorem mem_foldl_addFirst {xs kept : List α} {x : α}
    (h : x ∈ xs.foldl (addFirst key) kept) : x ∈ kept ∨ x ∈ xs := by
  induction xs generalizing kept with
  | nil => exact .inl h
  | cons y xs ih =>
    rcases ih h with h | h
    · by_cases hseen : key y ∈ kept.map key
      · rw [addFirst_seen hseen] at h
        exact .inl h
      · rw [addFirst_new hseen] at h
        rcases List.mem_append.mp h with h | h
        · exact .inl h
        · exact .inr (List.mem_singleton.mp h ▸ List.mem_cons_self)
    · exact .inr (List.mem_cons_of_mem _ h)

theorem keys_foldl_addFirst (xs kept : List α) (k : κ) :
    k ∈ (xs.foldl (addFirst key) kept).map key ↔ k ∈ kept.map key ∨ k ∈ xs.map key := by
  induction xs generalizing kept with
  | nil => simp
  | cons x xs ih =>
    rw [List.foldl_cons, ih]
    by_cases hseen : key x ∈ kept.map key
    · rw [addFirst_seen hseen, List.map_cons, List.mem_cons]
      constructor
      · rintro (h | h)
        · exact .inl h
        · exact .inr (.inr h)
      · rintro (h | rfl | h)
        · exact .inl h
        · exact .inl hseen
        · exact .inr h
    · rw [addFirst_new hseen]
      simp [or_assoc]

theorem mem_keepFirst {xs : List α} {x : α} (h : x ∈ keepFirst key xs) : x ∈ xs :=
  (mem_foldl_addFirst h).resolve_left List.not_mem_nil

/-- Elements whose keys have been seen change nothing. -/
theorem foldl_addFirst_seen {xs kept : List α} (h : ∀ x ∈ xs, key x ∈ kept.map key) :
    xs.foldl (addFirst key) kept = kept := by
  induction xs with
  | nil => rfl
  | cons x xs ih =>
    rw [List.foldl_cons, addFirst_seen (h x List.mem_cons_self)]
    exact ih fun y hy => h y (List.mem_cons_of_mem _ hy)

theorem keepFirst_append_seen {xs ys : List α} (h : ∀ y ∈ ys, key y ∈ xs.map key) :
    keepFirst key (xs ++ ys) = keepFirst key xs := by
  rw [keepFirst, List.foldl_append]
  refine foldl_addFirst_seen fun y hy => ?_
  exact (keys_foldl_addFirst xs [] (key y)).mpr (.inr (h y hy))

theorem foldl_addFirst_nodup {xs kept : List α} (h : ((kept ++ xs).map key).Nodup) :
    xs.foldl (addFirst key) kept = kept ++ xs := by
  induction xs generalizing kept with
  | nil => exact (List.append_nil kept).symm
  | cons x xs ih =>
    have hnew : key x ∉ kept.map key := by
      rw [List.map_append, List.map_cons] at h
      exact fun hmem => (List.nodup_append.mp h).2.2 _ hmem _ List.mem_cons_self rfl
    rw [List.foldl_cons, addFirst_new hnew, ih (by simpa using h), List.append_assoc,
      List.singleton_append]

theorem length_foldl_addFirst_le (xs kept : List α) :
    (xs.foldl (addFirst key) kept).length ≤ kept.length + xs.length := by
  induction xs generalizing kept with
  | nil => simp
  | cons x xs ih =>
    have hle := ih (addFirst key kept x)
    have hadd : (addFirst key kept x).length ≤ kept.length + 1 := by
      unfold addFirst
      split <;> simp
    rw [List.foldl_cons, List.length_cons]
    omega

theorem nodup_of_length_foldl_addFirst {xs kept : List α} (hkept : (kept.map key).Nodup)
    (h : (xs.foldl (addFirst key) kept).length = kept.length + xs.length) :
    ((kept ++ xs).map key).Nodup := by
  induction xs generalizing kept with
  | nil => rwa [List.append_nil]
  | cons x xs ih =>
    by_cases hseen : key x ∈ kept.map key
    · rw [List.foldl_cons, addFirst_seen hseen, List.length_cons] at h
      have hle : (xs.foldl (addFirst key) kept).length ≤ kept.length + xs.length :=
        length_foldl_addFirst_le xs kept
      omega
    · rw [List.foldl_cons, addFirst_new hseen] at h
      have hnodup : ((kept ++ [x]).map key).Nodup := by
        rw [List.map_append, List.map_singleton]
        rw [← List.concat_eq_append]
        exact hkept.concat hseen
      have := ih hnodup (by simpa [Nat.add_assoc, Nat.add_comm 1] using h)
      rwa [List.append_assoc, List.singleton_append] at this

theorem keepFirst_eq_self {xs : List α} (h : (xs.map key).Nodup) : keepFirst key xs = xs :=
  foldl_addFirst_nodup h

/-- Nothing is dropped exactly if the keys are pairwise different. -/
theorem length_keepFirst_iff (xs : List α) :
    (keepFirst key xs).length = xs.length ↔ (xs.map key).Nodup := by
  constructor
  · intro h
    have hempty : (([] : List α).map key).Nodup := List.nodup_nil
    refine nodup_of_length_foldl_addFirst hempty ?_
    rw [List.length_nil, Nat.zero_add]
    exact h
  · intro h
    rw [keepFirst_eq_self h]

/-! ### First positions -/

/-- The answer at the first position that has one. -/
theorem findSome?_zipIdx {β : Type v} {xs : List α} {f : α × Nat → Option β} {n : Nat} {b : β}
    (hn : n < xs.length) (hbefore : ∀ i (hi : i < n), f (xs[i], i) = none)
    (hat : f (xs[n], n) = some b) : xs.zipIdx.findSome? f = some b := by
  rw [List.findSome?_eq_some_iff]
  refine ⟨(xs.take n).zipIdx, (xs[n], n), (xs.drop (n + 1)).zipIdx (n + 1), ?_, hat, ?_⟩
  · conv_lhs => rw [← List.take_append_drop n xs]
    rw [List.zipIdx_append, List.drop_eq_getElem_cons hn, List.zipIdx_cons]
    simp [Nat.min_eq_left (Nat.le_of_lt hn)]
  · rintro ⟨x, i⟩ hx
    obtain ⟨hi, hxi⟩ := List.mem_zipIdx' hx
    rw [List.length_take] at hi
    have := hbefore i (by omega)
    rwa [hxi, List.getElem_take]

end RootLake.KeepFirst

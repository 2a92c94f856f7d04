import Mathlib.Data.List.Basic

/-!
# Greedy partitions

A list is cut into chunks from the front: each element joins the chunk that is being filled
if it fits, and starts the next chunk if it does not.  The chunks are a partition of the
list in its order, every one of them was filled by elements that fitted, and none could have
taken the element that follows it.
-/

namespace RootLake.Greedy

universe u

variable {α : Type u} (fits : List α → α → Bool)

/-- The chunks of a list behind the one that is being filled. -/
def chunks : List α → List α → List (List α)
  | current, [] => if current.isEmpty then [] else [current]
  | current, x :: rest =>
      if !current.isEmpty && !fits current x then current :: chunks [x] rest
      else chunks (current ++ [x]) rest

/-- Every element of a chunk behind the first fitted when it joined. -/
def Filled (chunk : List α) : Prop :=
  ∀ front x, front ≠ [] → front ++ [x] <+: chunk → fits front x = true

/-- The chunk has no room for the first element of the next. -/
def Full (chunk next : List α) : Prop :=
  ∃ x rest, next = x :: rest ∧ fits chunk x = false

theorem flatten_chunks (rest : List α) :
    ∀ current, (chunks fits current rest).flatten = current ++ rest := by
  induction rest with
  | nil =>
    intro current
    rw [chunks]
    split_ifs with h
    · rw [List.isEmpty_iff.mp h, List.flatten_nil, List.append_nil]
    · rw [List.flatten_singleton, List.append_nil]
  | cons x rest ih =>
    intro current
    rw [chunks]
    split_ifs
    · rw [List.flatten_cons, ih, List.singleton_append]
    · rw [ih, List.append_assoc, List.singleton_append]

theorem filled_nil : Filled fits [] := by
  intro front x _ h
  rw [List.prefix_nil, List.append_eq_nil_iff] at h
  exact nomatch h.2

theorem filled_singleton (x : α) : Filled fits [x] := by
  intro front y hfront h
  have hlength := h.length_le
  rw [List.length_append, List.length_singleton, List.length_singleton] at hlength
  exact absurd (List.length_eq_zero_iff.mp (by omega)) hfront

/-- An element that fits keeps a chunk filled. -/
theorem Filled.push {current : List α} {x : α} (h : Filled fits current)
    (hx : current ≠ [] → fits current x = true) : Filled fits (current ++ [x]) := by
  intro front y hfront hy
  rcases List.prefix_concat_iff.mp hy with heq | hle
  · obtain ⟨rfl, hlast⟩ := List.append_inj' heq rfl
    obtain ⟨rfl, -⟩ := List.cons.inj hlast
    exact hx hfront
  · exact h front y hfront hle

theorem filled_of_mem_chunks (rest : List α) :
    ∀ {current}, Filled fits current → ∀ chunk ∈ chunks fits current rest,
      chunk ≠ [] ∧ Filled fits chunk := by
  induction rest with
  | nil =>
    intro current hcurrent chunk hchunk
    rw [chunks] at hchunk
    split_ifs at hchunk with hempty
    · exact absurd hchunk List.not_mem_nil
    · obtain rfl := List.mem_singleton.mp hchunk
      exact ⟨fun hnil => hempty (List.isEmpty_iff.mpr hnil), hcurrent⟩
  | cons x rest ih =>
    intro current hcurrent chunk hchunk
    rw [chunks] at hchunk
    split_ifs at hchunk with hflush
    · rw [Bool.and_eq_true, Bool.not_eq_true', List.isEmpty_eq_false_iff] at hflush
      rcases List.mem_cons.mp hchunk with rfl | hlater
      · exact ⟨hflush.1, hcurrent⟩
      · exact ih (filled_singleton fits x) chunk hlater
    · refine ih (hcurrent.push fits fun hsome => ?_) chunk hchunk
      by_contra hfits
      exact hflush (by simp [hsome, hfits])

/-- The first chunk starts with the one that is being filled. -/
theorem chunks_head (rest : List α) : ∀ {current}, current ≠ [] →
    ∃ more later, chunks fits current rest = (current ++ more) :: later := by
  induction rest with
  | nil =>
    intro current hcurrent
    refine ⟨[], [], ?_⟩
    rw [chunks, if_neg (by simpa using hcurrent), List.append_nil]
  | cons x rest ih =>
    intro current hcurrent
    rw [chunks]
    split_ifs
    · exact ⟨[], _, by rw [List.append_nil]⟩
    · obtain ⟨more, later, hchunks⟩ := ih (List.append_ne_nil_of_right_ne_nil current (List.cons_ne_nil x []))
      exact ⟨x :: more, later, by rw [hchunks, List.append_assoc, List.singleton_append]⟩

/-- No chunk has room for the element that follows it. -/
theorem isChain_chunks (rest : List α) :
    ∀ current, (chunks fits current rest).IsChain (Full fits) := by
  induction rest with
  | nil =>
    intro current
    rw [chunks]
    split_ifs
    · exact .nil
    · exact .singleton _
  | cons x rest ih =>
    intro current
    rw [chunks]
    split_ifs with hflush
    · rw [Bool.and_eq_true, Bool.not_eq_true', Bool.not_eq_true'] at hflush
      have hnext := ih [x]
      obtain ⟨more, later, hchunks⟩ := chunks_head fits rest (List.cons_ne_nil x [])
      rw [hchunks] at hnext ⊢
      exact .cons_cons ⟨x, more, rfl, hflush.2⟩ hnext
    · exact ih _

end RootLake.Greedy

import Mathlib.Data.List.Forall2

/-!
# When an `Except` computation returns

What a sequence, a map over a list and a loop over a list return, and just when.
-/

namespace RootLake.ExceptRules

universe u v w

variable {ε : Type u} {α : Type v} {β : Type w}

theorem bind_ok_iff {α β : Type v} {x : Except ε α} {f : α → Except ε β} {result : β} :
    (x >>= f) = .ok result ↔ ∃ a, x = .ok a ∧ f a = .ok result := by
  cases x with
  | error e => exact ⟨fun h => (nomatch h), fun ⟨_, h, _⟩ => (nomatch h)⟩
  | ok a =>
    refine ⟨fun h => ⟨a, rfl, h⟩, ?_⟩
    rintro ⟨b, hb, h⟩
    obtain rfl := Except.ok.inj hb
    exact h

theorem ok_bind {α β : Type v} (a : α) (f : α → Except ε β) : (Except.ok a >>= f) = f a := rfl

theorem exists_ok_of_isOk {x : Except ε α} (h : x.isOk = true) : ∃ a, x = .ok a := by
  cases x with
  | error e => cases h
  | ok a => exact ⟨a, rfl⟩

theorem mapM_ok_iff {f : α → Except ε β} {xs : List α} :
    ∀ {ys : List β}, xs.mapM f = .ok ys ↔ List.Forall₂ (fun x y => f x = .ok y) xs ys := by
  induction xs with
  | nil =>
    intro ys
    rw [List.mapM_nil, List.forall₂_nil_left_iff]
    exact ⟨fun h => (Except.ok.inj h).symm, fun h => h ▸ rfl⟩
  | cons x xs ih =>
    intro ys
    rw [List.mapM_cons]
    cases hx : f x with
    | error e =>
      refine ⟨fun h => (nomatch h), fun h => ?_⟩
      cases h with
      | cons hy _ => exact nomatch hx.symm.trans hy
    | ok y =>
      cases hrest : xs.mapM f with
      | error e =>
        refine ⟨fun h => (nomatch h), fun h => ?_⟩
        cases h with
        | cons _ hmore => exact nomatch hrest.symm.trans (ih.mpr hmore)
      | ok more =>
        constructor
        · intro h
          obtain rfl := Except.ok.inj h
          exact .cons hx (ih.mp hrest)
        · intro h
          cases h with
          | cons hy hmore =>
            obtain rfl := Except.ok.inj (hx.symm.trans hy)
            obtain rfl := Except.ok.inj (hrest.symm.trans (ih.mpr hmore))
            rfl

theorem forM_ok_iff {f : α → Except ε PUnit} {xs : List α} :
    xs.forM f = .ok ⟨⟩ ↔ ∀ x ∈ xs, f x = .ok ⟨⟩ := by
  induction xs with
  | nil => exact ⟨fun _ _ h => absurd h List.not_mem_nil, fun _ => rfl⟩
  | cons x xs ih =>
    change (f x >>= fun _ => xs.forM f) = .ok ⟨⟩ ↔ _
    rw [List.forall_mem_cons, ← ih]
    cases f x with
    | error e => exact ⟨fun h => (nomatch h), fun h => (nomatch h.1)⟩
    | ok _ => exact ⟨fun h => ⟨rfl, h⟩, fun h => h.2⟩

theorem exists_left_of_mem {R : α → β → Prop} {xs : List α} {ys : List β}
    (h : List.Forall₂ R xs ys) : ∀ y ∈ ys, ∃ x ∈ xs, R x y := by
  induction h with
  | nil => exact fun _ hy => absurd hy List.not_mem_nil
  | cons hxy _ ih =>
    rw [List.forall_mem_cons]
    exact ⟨⟨_, List.mem_cons_self, hxy⟩, fun y hy =>
      (ih y hy).imp fun x hx => ⟨List.mem_cons_of_mem _ hx.1, hx.2⟩⟩

theorem exists_right_of_mem {R : α → β → Prop} {xs : List α} {ys : List β}
    (h : List.Forall₂ R xs ys) : ∀ x ∈ xs, ∃ y ∈ ys, R x y :=
  exists_left_of_mem h.flip

end RootLake.ExceptRules

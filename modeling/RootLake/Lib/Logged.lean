import Mathlib.Tactic.TypeStar

/-!
# Computations that leave a log

A computation performs actions one after the other until it returns or fails; the log has
the actions that were performed, also those ahead of a failure.  A property of actions holds
of the log of a sequence just when it holds of the log of each part that is reached.
-/

namespace RootLake

universe u v w

/-- What was done, and how it ended. -/
structure Logged (κ : Type u) (ε : Type v) (α : Type w) where
  log : List κ
  result : Except ε α

namespace Logged

variable {κ : Type u} {ε : Type v} {α β : Type w}

instance : Monad (Logged κ ε) where
  pure a := ⟨[], .ok a⟩
  bind x f :=
    match x.result with
    | .error e => ⟨x.log, .error e⟩
    | .ok a => ⟨x.log ++ (f a).log, (f a).result⟩

/-- Nothing is done. -/
def lift (result : Except ε α) : Logged κ ε α := ⟨[], result⟩

/-- One action, with its answer. -/
def perform (action : κ) (answer : Except ε α) : Logged κ ε α := ⟨[action], answer⟩

/-- Every action that is performed has the property. -/
def All (P : κ → Prop) (x : Logged κ ε α) : Prop := ∀ action ∈ x.log, P action

variable {P : κ → Prop}

theorem bind_error {x : Logged κ ε α} {f : α → Logged κ ε β} {e : ε} (h : x.result = .error e) :
    x >>= f = ⟨x.log, .error e⟩ := by
  change (match x.result with | .error e => _ | .ok a => _) = _
  rw [h]

theorem bind_ok {x : Logged κ ε α} {f : α → Logged κ ε β} {a : α} (h : x.result = .ok a) :
    x >>= f = ⟨x.log ++ (f a).log, (f a).result⟩ := by
  change (match x.result with | .error e => _ | .ok a => _) = _
  rw [h]

/-- The results of a computation run by themselves. -/
theorem result_bind (x : Logged κ ε α) (f : α → Logged κ ε β) :
    (x >>= f).result = x.result >>= fun a => (f a).result := by
  cases h : x.result with
  | error e =>
    rw [bind_error h]
    rfl
  | ok a =>
    rw [bind_ok h]
    rfl

@[simp] theorem result_lift (result : Except ε α) :
    (lift result : Logged κ ε α).result = result := rfl

@[simp] theorem result_perform (action : κ) (answer : Except ε α) :
    (perform action answer).result = answer := rfl

@[simp] theorem result_pure (a : α) : (pure a : Logged κ ε α).result = .ok a := rfl

/-- Every action that is performed has the property, and so has what is returned. -/
def Ensures (P : κ → Prop) (Q : α → Prop) (x : Logged κ ε α) : Prop :=
  x.All P ∧ ∀ a, x.result = .ok a → Q a

theorem ensures_pure {Q : α → Prop} {a : α} (h : Q a) :
    (pure a : Logged κ ε α).Ensures P Q :=
  ⟨fun _ h => absurd h List.not_mem_nil, fun _ ha => Except.ok.inj ha ▸ h⟩

theorem ensures_lift {Q : α → Prop} {result : Except ε α} (h : ∀ a, result = .ok a → Q a) :
    (lift result : Logged κ ε α).Ensures P Q :=
  ⟨fun _ h => absurd h List.not_mem_nil, h⟩

theorem ensures_perform {Q : α → Prop} {action : κ} {answer : Except ε α} (haction : P action)
    (h : ∀ a, answer = .ok a → Q a) : (perform action answer).Ensures P Q :=
  ⟨fun _ hmem => List.mem_singleton.mp hmem ▸ haction, h⟩

/-- A sequence: what the first part returns is what the rest starts from. -/
theorem Ensures.bind {Q : α → Prop} {R : β → Prop} {x : Logged κ ε α} {f : α → Logged κ ε β}
    (hx : x.Ensures P Q) (hf : ∀ a, Q a → (f a).Ensures P R) : (x >>= f).Ensures P R := by
  cases h : x.result with
  | error e =>
    rw [bind_error h]
    exact ⟨hx.1, fun _ h => (nomatch h)⟩
  | ok a =>
    rw [bind_ok h]
    obtain ⟨hlog, hresult⟩ := hf a (hx.2 a h)
    refine ⟨fun action ha => ?_, hresult⟩
    rcases List.mem_append.mp ha with ha | ha
    · exact hx.1 action ha
    · exact hlog action ha

/-- One step for each element of a list. -/
theorem ensures_forM {ι : Type*} {xs : List ι} {f : ι → Logged κ ε PUnit}
    (h : ∀ x ∈ xs, (f x).Ensures P fun _ => True) : (xs.forM f).Ensures P fun _ => True := by
  induction xs with
  | nil => exact ensures_pure trivial
  | cons x xs ih =>
    rw [List.forall_mem_cons] at h
    exact h.1.bind fun _ _ => ih h.2

end Logged

end RootLake

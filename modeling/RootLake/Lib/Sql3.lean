import Mathlib.Data.List.Basic

/-!
# Three-valued logic

SQL conditions are true, false or unknown, and a row is kept when its condition is true.
`none` is unknown. The lemmas say when a connective is true; nothing else about the
connectives is needed to argue about rows that are kept.
-/

namespace RootLake.Sql3

/-- A truth value; `none` is unknown. -/
abbrev Truth := Option Bool

def and3 : Truth → Truth → Truth
  | some false, _ => some false
  | _, some false => some false
  | some true, some true => some true
  | _, _ => none

def or3 : Truth → Truth → Truth
  | some true, _ => some true
  | _, some true => some true
  | some false, some false => some false
  | _, _ => none

def all3 (l : List Truth) : Truth := l.foldr and3 (some true)

def any3 (l : List Truth) : Truth := l.foldr or3 (some false)

@[simp] theorem and3_eq_true {a b : Truth} :
    and3 a b = some true ↔ a = some true ∧ b = some true := by
  rcases a with _ | _ | _ <;> rcases b with _ | _ | _ <;> decide

@[simp] theorem or3_eq_true {a b : Truth} :
    or3 a b = some true ↔ a = some true ∨ b = some true := by
  rcases a with _ | _ | _ <;> rcases b with _ | _ | _ <;> decide

theorem all3_eq_true {l : List Truth} : all3 l = some true ↔ ∀ t ∈ l, t = some true := by
  induction l with
  | nil => simp [all3]
  | cons t l ih =>
    change and3 t (all3 l) = some true ↔ _
    rw [and3_eq_true, ih, List.forall_mem_cons]

theorem any3_eq_true {l : List Truth} : any3 l = some true ↔ ∃ t ∈ l, t = some true := by
  induction l with
  | nil => simp [any3]
  | cons t l ih =>
    change or3 t (any3 l) = some true ↔ _
    rw [or3_eq_true, ih, List.exists_mem_cons_iff]

end RootLake.Sql3

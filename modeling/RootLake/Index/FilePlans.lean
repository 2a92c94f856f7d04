/-
  RootLake/Index/FilePlans.lean
  =============================
  **The plans of the input files.**

  The workers of the inspection fill one plan for each input file, in any order; the event
  bases are then the running sum of the entry counts in input order.  A file that could not
  be inspected keeps its place, with the entries it was found to have until then.
-/
import RootLake.Dataset.Task
import Mathlib.Algebra.Order.Ring.Nat
import Mathlib.Algebra.Order.BigOperators.Group.List
import Mathlib.Data.UInt

namespace RootLake.Index

open RootLake.Dataset (toNat_add_of_lt)

structure RootIndexFilePlan where
  path : String
  entries : UInt64 := 0
  eventBase : UInt64 := 0
  error : String := ""
  deriving DecidableEq, Repr

/-- `InspectRootIndexFile`, when `entries` is what opening the file and finding its tree gives. -/
def inspectRootIndexFile (entries : String → Except String UInt64) (path : String) :
    RootIndexFilePlan :=
  match entries path with
  | .ok entries => { path := path, entries := entries }
  | .error message => { path := path, error := message }

/-- The loop of `InspectFiles` over the plans. -/
def assignEventBases (eventBase : UInt64) : List RootIndexFilePlan → List RootIndexFilePlan
  | [] => []
  | plan :: rest =>
      { plan with eventBase := eventBase } :: assignEventBases (eventBase + plan.entries) rest

/-- `InspectFiles`; a file that cannot be inspected is only accepted in a partial build. -/
def inspectFiles (entries : String → Except String UInt64) (allowPartial : Bool)
    (snapshotId : String) (files : List String) : Except String (List RootIndexFilePlan) :=
  let plans := assignEventBases 0 (files.map (inspectRootIndexFile entries))
  if plans.any (fun plan => plan.error != "") && !allowPartial then
    .error ("ROOT index preflight failed; see failed-" ++ snapshotId ++ ".csv")
  else .ok plans

/-! ### Sums -/

/-- The entries of the plans, as a number. -/
def totalEntries (plans : List RootIndexFilePlan) : Nat :=
  (plans.map fun plan => plan.entries.toNat).sum

theorem totalEntries_cons (plan : RootIndexFilePlan) (plans : List RootIndexFilePlan) :
    totalEntries (plan :: plans) = plan.entries.toNat + totalEntries plans := by
  rw [totalEntries, List.map_cons, List.sum_cons]
  rfl

/-- What the plans keep: everything but the base. -/
theorem assignEventBases_map {α : Type} (f : RootIndexFilePlan → α)
    (hf : ∀ plan base, f { plan with eventBase := base } = f plan)
    (plans : List RootIndexFilePlan) :
    ∀ base, (assignEventBases base plans).map f = plans.map f := by
  induction plans with
  | nil => exact fun _ => rfl
  | cons plan plans ih =>
    intro base
    rw [assignEventBases, List.map_cons, List.map_cons, hf, ih]

/-- As long as all entries together fit, every file has its entries between its base and those
    of the files behind it. -/
theorem assignEventBases_bases (plans : List RootIndexFilePlan) :
    ∀ {base : UInt64}, base.toNat + totalEntries plans ≤ 2 ^ 64 →
      (∀ plan ∈ assignEventBases base plans, plan.entries.toNat ≠ 0 →
        base.toNat ≤ plan.eventBase.toNat ∧
          plan.eventBase.toNat + plan.entries.toNat ≤ 2 ^ 64) ∧
      (assignEventBases base plans).Pairwise fun left right => right.entries.toNat ≠ 0 →
        left.eventBase.toNat + left.entries.toNat ≤ right.eventBase.toNat := by
  induction plans with
  | nil => exact fun _ => ⟨fun _ h => absurd h List.not_mem_nil, List.Pairwise.nil⟩
  | cons plan plans ih =>
    intro base hfits
    rw [totalEntries_cons] at hfits
    by_cases hwraps : base.toNat + plan.entries.toNat < 2 ^ 64
    · have hnext : (base + plan.entries).toNat = base.toNat + plan.entries.toNat :=
        toNat_add_of_lt hwraps
      obtain ⟨hbehind, hbases⟩ := @ih (base + plan.entries) (by omega)
      rw [hnext] at hbehind
      refine ⟨fun other hother hsome => ?_, List.pairwise_cons.mpr
        ⟨fun other hother hsome => (hbehind other hother hsome).1, hbases⟩⟩
      rcases List.mem_cons.mp hother with rfl | hother
      · exact ⟨Nat.le_refl _, Nat.le_of_lt hwraps⟩
      · obtain ⟨hle, hfit⟩ := hbehind other hother hsome
        exact ⟨by omega, hfit⟩
    · -- the entries are used up: the files behind have none
      have hnone : ∀ other ∈ plans, other.entries.toNat = 0 := by
        intro other hother
        have := List.single_le_sum (by simp) _ (List.mem_map_of_mem hother :
          other.entries.toNat ∈ plans.map fun plan => plan.entries.toNat)
        rw [← totalEntries] at this
        omega
      have hnone' : ∀ other ∈ assignEventBases (base + plan.entries) plans,
          other.entries.toNat = 0 := by
        intro other hother
        have hmem := List.mem_map_of_mem (f := RootIndexFilePlan.entries) hother
        rw [assignEventBases_map _ (fun _ _ => rfl)] at hmem
        obtain ⟨source, hsource, heq⟩ := List.mem_map.mp hmem
        rw [← heq]
        exact hnone source hsource
      refine ⟨fun other hother hsome => ?_, List.pairwise_cons.mpr
        ⟨fun other hother hsome => absurd (hnone' other hother) hsome, ?_⟩⟩
      · rcases List.mem_cons.mp hother with rfl | hother
        · exact ⟨Nat.le_refl _, by dsimp only; omega⟩
        · exact absurd (hnone' other hother) hsome
      · exact List.pairwise_of_forall_mem_list fun left _ right hright hsome =>
          absurd (hnone' right hright) hsome

end RootLake.Index

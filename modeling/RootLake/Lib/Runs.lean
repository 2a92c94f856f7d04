import Mathlib.Order.Basic

/-!
# Runs of labelled transition systems

A system is a set of initial states and a labelled step relation. `Reached ok`
is the set of states a run can reach when every step of it meets the guard `ok`,
a condition on the state before the step and on the step's label. Plain
reachability is the guard that is always true.

The induction over runs is stated once, as `Reached.invariant`; safety results of
a concrete system are then one lemma about its initial states and one about its
steps.
-/

namespace RootLake.Runs

universe u v

/-- A labelled transition system. -/
structure System (State : Type u) (Label : Type v) where
  init : State → Prop
  step : State → Label → State → Prop

variable {State : Type u} {Label : Type v} {sys : System State Label}
variable {ok : State → Label → Prop}

/-- States reached by a run all of whose steps meet the guard `ok`. -/
inductive System.Reached (sys : System State Label) (ok : State → Label → Prop) :
    State → Prop where
  | init {s : State} : sys.init s → sys.Reached ok s
  | step {s t : State} {l : Label} :
      sys.Reached ok s → ok s l → sys.step s l t → sys.Reached ok t

/-- Reachability without a guard. -/
def System.Reachable (sys : System State Label) (s : State) : Prop :=
  sys.Reached (fun _ _ => True) s

theorem System.Reached.mono {ok' : State → Label → Prop}
    (hok : ∀ s l, ok s l → ok' s l) {s : State} (h : sys.Reached ok s) :
    sys.Reached ok' s := by
  induction h with
  | init h => exact .init h
  | step _ hl hstep ih => exact .step ih (hok _ _ hl) hstep

/-- **Invariant rule.**  A property of the initial states that every guarded step
    keeps holds in every state a guarded run reaches. -/
theorem System.Reached.invariant {I : State → Prop}
    (hinit : ∀ s, sys.init s → I s)
    (hstep : ∀ s l t, I s → ok s l → sys.step s l t → I t)
    {s : State} (h : sys.Reached ok s) : I s := by
  induction h with
  | init h => exact hinit _ h
  | step _ hl hs ih => exact hstep _ _ _ ih hl hs

/-- The invariant rule without a guard. -/
theorem System.Reachable.invariant {I : State → Prop} {s : State} (h : sys.Reachable s)
    (hinit : ∀ s, sys.init s → I s)
    (hstep : ∀ s l t, I s → sys.step s l t → I t) : I s :=
  System.Reached.invariant hinit (fun s l t hs _ => hstep s l t hs) h

/-- The invariant rule relative to an invariant `J` that is already known. -/
theorem System.Reached.invariant_of {I J : State → Prop}
    (hJ : ∀ s, sys.Reached ok s → J s)
    (hinit : ∀ s, sys.init s → I s)
    (hstep : ∀ s l t, J s → I s → ok s l → sys.step s l t → I t)
    {s : State} (h : sys.Reached ok s) : I s := by
  induction h with
  | init h => exact hinit _ h
  | step hreach hl hs ih => exact hstep _ _ _ (hJ _ hreach) ih hl hs

/-! ### Simulation -/

/-- **Simulation rule.**  When every initial state and every guarded step is matched by
    the abstract system, every reached state is matched by a reachable abstract one. -/
theorem System.Reached.simulates {Abstract : Type u} {Action : Type v}
    {abstractSys : System Abstract Action} {R : State → Abstract → Prop}
    (hinit : ∀ s, sys.init s → ∃ a, abstractSys.init a ∧ R s a)
    (hstep : ∀ s l t a, abstractSys.Reachable a → R s a → ok s l → sys.step s l t →
      ∃ action b, abstractSys.step a action b ∧ R t b)
    {s : State} (h : sys.Reached ok s) : ∃ a, abstractSys.Reachable a ∧ R s a := by
  induction h with
  | init h =>
    obtain ⟨a, ha, hR⟩ := hinit _ h
    exact ⟨a, .init ha, hR⟩
  | step _ hl hs ih =>
    obtain ⟨a, ha, hR⟩ := ih
    obtain ⟨action, b, hab, hR'⟩ := hstep _ _ _ a ha hR hl hs
    exact ⟨b, .step ha trivial hab, hR'⟩

/-! ### Executing runs -/

/-- Execute a list of labels with a step function. -/
def runSteps (next : State → Label → Option State) : State → List Label → Option State
  | s, [] => some s
  | s, l :: ls => (next s l).bind fun t => runSteps next t ls

/-- Executing a step function that only takes guarded steps reaches guarded states. -/
theorem System.reached_of_runSteps {next : State → Label → Option State}
    (hnext : ∀ s l t, next s l = some t → ok s l ∧ sys.step s l t) :
    ∀ {labels : List Label} {s t : State},
      sys.Reached ok s → runSteps next s labels = some t → sys.Reached ok t := by
  intro labels
  induction labels with
  | nil =>
    intro s t hs h
    simp only [runSteps, Option.some.injEq] at h
    exact h ▸ hs
  | cons l ls ih =>
    intro s t hs h
    simp only [runSteps, Option.bind_eq_some_iff] at h
    obtain ⟨u, hu, hrest⟩ := h
    obtain ⟨hok, hstep⟩ := hnext _ _ _ hu
    exact ih (.step hs hok hstep) hrest

/-- Take only the steps the guard allows. -/
def guarded (ok : State → Label → Prop) [∀ s l, Decidable (ok s l)]
    (next : State → Label → Option State) (s : State) (l : Label) : Option State :=
  if ok s l then next s l else none

/-- A guarded execution is an execution. -/
theorem runSteps_of_guarded [∀ s l, Decidable (ok s l)] {next : State → Label → Option State}
    {labels : List Label} {s t : State} (h : runSteps (guarded ok next) s labels = some t) :
    runSteps next s labels = some t := by
  induction labels generalizing s with
  | nil => exact h
  | cons l ls ih =>
    obtain ⟨u, hu, hrest⟩ := Option.bind_eq_some_iff.mp h
    rw [guarded] at hu
    split at hu
    · exact Option.bind_eq_some_iff.mpr ⟨u, hu, ih hrest⟩
    · cases hu

/-- Executing a guarded step function from an initial state reaches guarded states. -/
theorem System.reached_of_guarded [∀ s l, Decidable (ok s l)]
    {next : State → Label → Option State} (hnext : ∀ s l t, next s l = some t → sys.step s l t)
    {labels : List Label} {s t : State} (hs : sys.init s)
    (h : runSteps (guarded ok next) s labels = some t) : sys.Reached ok t := by
  refine System.reached_of_runSteps (fun s l t hstep => ?_) (.init hs) h
  rw [guarded] at hstep
  split at hstep
  · rename_i hok
    exact ⟨hok, hnext s l t hstep⟩
  · cases hstep

end RootLake.Runs

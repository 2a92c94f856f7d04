/-
  RootLake/Dataset/ReserveRows.lean
  =================================
  **Reserving output rows, one atomic access at a time.**

  `ReserveOutputRows` reads the stop flag, reads the number of emitted rows, exchanges it
  in a loop and sets the flag.  Other workers may come in between any two accesses, and the
  weak exchange may fail without a reason.

  Granted rows are counted in the access that grants them, so the count never passes the
  limit; a call returns empty-handed only when the limit is reached.
-/
import RootLake.Dataset.SharedScan

namespace RootLake.Dataset

/-- A call between two of its atomic accesses. -/
inductive ReservePoint where
  | checkStop
  | load
  | exchange (current : UInt64)
  | raise (granted : UInt64)
  | returned (granted : UInt64)
  deriving DecidableEq, Repr

/-- The next access of a call; `succeeds` says whether an exchange that can succeed does. -/
def reserveStep (global : DatasetGlobalState) (requested : UInt64) (succeeds : Bool)
    (counters : DatasetCounters) : ReservePoint → DatasetCounters × ReservePoint
  | .checkStop =>
      if requested = 0 ∨ counters.stopRequested then (counters, .returned 0)
      else (counters, .load)
  | .load =>
      if global.rowLimit = uint64Max then
        ({ counters with emittedRows := counters.emittedRows + requested }, .returned requested)
      else (counters, .exchange counters.emittedRows)
  | .exchange current =>
      if current < global.rowLimit then
        let granted := stdMin (global.rowLimit - current) requested
        if succeeds ∧ counters.emittedRows = current then
          ({ counters with emittedRows := current + granted },
            if global.rowLimit ≤ current + granted then .raise granted else .returned granted)
        else (counters, .exchange counters.emittedRows)
      else (counters, .raise 0)
  | .raise granted => ({ counters with stopRequested := true }, .returned granted)
  | .returned granted => (counters, .returned granted)

namespace ReservePoint

/-- Rows that have been granted to the call and not emitted yet. -/
def pending : ReservePoint → Nat
  | .raise granted | .returned granted => granted.toNat
  | _ => 0

/-- What a call knows when `n` rows have been granted in all. -/
def Knows (rowLimit : UInt64) (n : Nat) : ReservePoint → Prop
  | .checkStop | .load => True
  | .exchange current => rowLimit ≠ uint64Max ∧ current.toNat ≤ n
  | .raise _ => rowBudget rowLimit = some n
  | .returned granted => granted = 0 → rowBudget rowLimit = some n

/-- Grants to others do not change what a call knows. -/
theorem Knows.mono {rowLimit : UInt64} {n n' : Nat} {point : ReservePoint}
    (h : point.Knows rowLimit n) (hle : n ≤ n')
    (hwithin : ∀ most, rowBudget rowLimit = some most → n' ≤ most) : point.Knows rowLimit n' := by
  have hused : rowBudget rowLimit = some n → rowBudget rowLimit = some n' := by
    intro hbudget
    rw [hbudget, Nat.le_antisymm hle (hwithin n hbudget)]
  cases point with
  | checkStop => trivial
  | load => trivial
  | exchange current => exact ⟨h.1, Nat.le_trans h.2 hle⟩
  | raise granted => exact hused h
  | returned granted => exact fun hzero => hused (h hzero)

end ReservePoint

/-- What an access leads to when `n` rows have been granted. -/
structure Reserved (rowLimit requested : UInt64) (n : Nat) (point : ReservePoint)
    (result : DatasetCounters × ReservePoint) (n' : Nat) : Prop where
  granted : Granted rowLimit result.1 n'
  grows : n ≤ n'
  account : n' + point.pending = n + result.2.pending
  knows : result.2.Knows rowLimit n'
  atMost : result.2.pending ≤ requested.toNat

/-- **Step lemma**: an access accounts for the rows it grants. -/
theorem reserveStep_reserved {global : DatasetGlobalState} {requested : UInt64}
    (hrequested : requested ≠ 0) (succeeds : Bool) {counters : DatasetCounters} {n : Nat}
    {point : ReservePoint} (hgranted : Granted global.rowLimit counters n)
    (hknows : point.Knows global.rowLimit n) (hatMost : point.pending ≤ requested.toNat) :
    ∃ n', Reserved global.rowLimit requested n point
      (reserveStep global requested succeeds counters point) n' := by
  by_cases hlimit : global.rowLimit = uint64Max
  · have hstop : counters.stopRequested = false := by
      unfold Granted at hgranted
      rwa [if_pos hlimit] at hgranted
    have hrun : ¬(requested = 0 ∨ counters.stopRequested = true) := by
      rw [hstop]
      simp [hrequested]
    have hnone : rowBudget global.rowLimit = none := by
      rw [rowBudget, if_pos hlimit]
    have hgrantedAny : ∀ m, Granted global.rowLimit counters m := by
      intro m
      rw [Granted, if_pos hlimit]
      exact hstop
    cases point with
    | checkStop =>
      rw [reserveStep, if_neg hrun]
      exact ⟨n, hgranted, Nat.le_refl n, rfl, trivial, Nat.zero_le _⟩
    | load =>
      rw [reserveStep, if_pos hlimit]
      refine ⟨n + requested.toNat, ?_, Nat.le_add_right _ _, rfl, ?_, Nat.le_refl _⟩
      · rw [Granted, if_pos hlimit]
        exact hstop
      · exact fun hzero => absurd hzero hrequested
    | exchange current => exact absurd hlimit hknows.1
    | raise granted =>
      rw [ReservePoint.Knows, hnone] at hknows
      cases hknows
    | returned granted =>
      exact ⟨n, hgranted, Nat.le_refl n, rfl, hknows, hatMost⟩
  · have hsome : rowBudget global.rowLimit = some global.rowLimit.toNat := by
      rw [rowBudget, if_neg hlimit]
    obtain ⟨hemitted, hle, hstopped⟩ :
        counters.emittedRows.toNat = n ∧ n ≤ global.rowLimit.toNat ∧
          (counters.stopRequested = true → n = global.rowLimit.toNat) := by
      unfold Granted at hgranted
      rwa [if_neg hlimit] at hgranted
    cases point with
    | checkStop =>
      rw [reserveStep]
      by_cases hstop : requested = 0 ∨ counters.stopRequested = true
      · rw [if_pos hstop]
        refine ⟨n, hgranted, Nat.le_refl n, rfl, fun _ => ?_, Nat.zero_le _⟩
        rw [hsome, hstopped (hstop.resolve_left hrequested)]
      · rw [if_neg hstop]
        exact ⟨n, hgranted, Nat.le_refl n, rfl, trivial, Nat.zero_le _⟩
    | load =>
      rw [reserveStep, if_neg hlimit]
      exact ⟨n, hgranted, Nat.le_refl n, rfl, ⟨hlimit, Nat.le_of_eq hemitted⟩, Nat.zero_le _⟩
    | exchange current =>
      rw [reserveStep]
      by_cases hroom : current < global.rowLimit
      · rw [if_pos hroom]
        dsimp only
        by_cases hexchanged : succeeds = true ∧ counters.emittedRows = current
        · -- the exchange counts and grants in one access
          rw [if_pos hexchanged]
          obtain ⟨-, rfl⟩ := hexchanged
          have hless := UInt64.lt_iff_toNat_lt.mp hroom
          have hsub := toNat_sub_of_le (Nat.le_of_lt hless)
          have hmin := toNat_stdMin (global.rowLimit - counters.emittedRows) requested
          have hbound := global.rowLimit.toNat_lt
          have hpositive : requested.toNat ≠ 0 :=
            fun hzero => hrequested (UInt64.toNat_inj.mp hzero)
          have hsum : (counters.emittedRows +
              stdMin (global.rowLimit - counters.emittedRows) requested).toNat =
                n + (stdMin (global.rowLimit - counters.emittedRows) requested).toNat := by
            rw [toNat_add_of_lt (by omega), hemitted]
          have hwithin : n + (stdMin (global.rowLimit - counters.emittedRows) requested).toNat ≤
              global.rowLimit.toNat := by omega
          by_cases hreached : global.rowLimit ≤ counters.emittedRows +
              stdMin (global.rowLimit - counters.emittedRows) requested
          · rw [if_pos hreached]
            have hreached := UInt64.le_iff_toNat_le.mp hreached
            have hequal : n + (stdMin (global.rowLimit - counters.emittedRows) requested).toNat =
                global.rowLimit.toNat := by omega
            refine ⟨_, ?_, Nat.le_add_right n _, rfl, ?_, by
              rw [ReservePoint.pending]
              omega⟩
            · rw [Granted, if_neg hlimit]
              exact ⟨hsum, hwithin, fun _ => hequal⟩
            · rw [ReservePoint.Knows, hsome]
              exact congrArg some hequal.symm
          · rw [if_neg hreached]
            have hreached : ¬ global.rowLimit.toNat ≤ _ :=
              fun h => hreached (UInt64.le_iff_toNat_le.mpr h)
            refine ⟨_, ?_, Nat.le_add_right n _, rfl, ?_, by
              rw [ReservePoint.pending]
              omega⟩
            · rw [Granted, if_neg hlimit]
              refine ⟨hsum, hwithin, fun hstop => ?_⟩
              have := hstopped hstop
              omega
            · intro hzero
              have := congrArg UInt64.toNat hzero
              rw [UInt64.toNat_zero] at this
              omega
        · rw [if_neg hexchanged]
          exact ⟨n, hgranted, Nat.le_refl n, rfl, ⟨hlimit, Nat.le_of_eq hemitted⟩, Nat.zero_le _⟩
      · rw [if_neg hroom]
        have hreached := UInt64.le_iff_toNat_le.mp (UInt64.not_lt.mp hroom)
        have hcurrent := hknows.2
        refine ⟨n, hgranted, Nat.le_refl n, rfl, ?_, Nat.zero_le _⟩
        rw [ReservePoint.Knows, hsome]
        congr 1
        omega
    | raise granted =>
      rw [ReservePoint.Knows, hsome, Option.some.injEq] at hknows
      refine ⟨n, ?_, Nat.le_refl n, rfl, fun _ => ?_, hatMost⟩
      · rw [Granted, if_neg hlimit]
        exact ⟨hemitted, hle, fun _ => hknows.symm⟩
      · rw [hsome, hknows]
    | returned granted =>
      exact ⟨n, hgranted, Nat.le_refl n, rfl, hknows, hatMost⟩

/-! ### A call without interruption -/

/-- The accesses of one call, with nobody in between. -/
def reserveAlone (global : DatasetGlobalState) (requested : UInt64) (exchanges : List Bool)
    (counters : DatasetCounters) : DatasetCounters × ReservePoint :=
  exchanges.foldl (fun state succeeds => reserveStep global requested succeeds state.1 state.2)
    (counters, .checkStop)

/-- A call on its own way to `reserveOutputRows`. -/
inductive AloneAt (global : DatasetGlobalState) (requested : UInt64) (counters : DatasetCounters) :
    DatasetCounters × ReservePoint → Prop where
  | checkStop : AloneAt global requested counters (counters, .checkStop)
  | load : ¬(requested = 0 ∨ counters.stopRequested = true) →
      AloneAt global requested counters (counters, .load)
  | exchange : ¬(requested = 0 ∨ counters.stopRequested = true) → global.rowLimit ≠ uint64Max →
      AloneAt global requested counters (counters, .exchange counters.emittedRows)
  | raise {counters' : DatasetCounters} {granted : UInt64} :
      reserveOutputRows global counters requested =
        (granted, { counters' with stopRequested := true }) →
      AloneAt global requested counters (counters', .raise granted)
  | returned {counters' : DatasetCounters} {granted : UInt64} :
      reserveOutputRows global counters requested = (granted, counters') →
      AloneAt global requested counters (counters', .returned granted)

theorem AloneAt.step {global : DatasetGlobalState} {requested : UInt64}
    {counters : DatasetCounters} {state : DatasetCounters × ReservePoint}
    (h : AloneAt global requested counters state) (succeeds : Bool) :
    AloneAt global requested counters
      (reserveStep global requested succeeds state.1 state.2) := by
  cases h with
  | checkStop =>
    dsimp only
    rw [reserveStep]
    by_cases hstop : requested = 0 ∨ counters.stopRequested = true
    · rw [if_pos hstop]
      refine .returned ?_
      rw [reserveOutputRows, if_pos hstop]
    · rw [if_neg hstop]
      exact .load hstop
  | load hrun =>
    dsimp only
    rw [reserveStep]
    by_cases hlimit : global.rowLimit = uint64Max
    · rw [if_pos hlimit]
      refine .returned ?_
      rw [reserveOutputRows, if_neg hrun, if_pos hlimit]
    · rw [if_neg hlimit]
      exact .exchange hrun hlimit
  | exchange hrun hlimit =>
    have hstop : counters.stopRequested = false := by
      simpa using (not_or.mp hrun).2
    dsimp only
    rw [reserveStep]
    by_cases hroom : counters.emittedRows < global.rowLimit
    · rw [if_pos hroom]
      dsimp only
      by_cases hexchanged : succeeds = true ∧ counters.emittedRows = counters.emittedRows
      · rw [if_pos hexchanged]
        by_cases hreached : global.rowLimit ≤ counters.emittedRows +
            stdMin (global.rowLimit - counters.emittedRows) requested
        · rw [if_pos hreached]
          refine .raise ?_
          rw [reserveOutputRows, if_neg hrun, if_neg hlimit, if_pos hroom]
          simp only [hreached, decide_true]
        · rw [if_neg hreached]
          refine .returned ?_
          rw [reserveOutputRows, if_neg hrun, if_neg hlimit, if_pos hroom]
          simp only [hreached, decide_false, hstop]
      · rw [if_neg hexchanged]
        exact .exchange hrun hlimit
    · rw [if_neg hroom]
      refine .raise ?_
      rw [reserveOutputRows, if_neg hrun, if_neg hlimit, if_neg hroom]
  | raise hresult => exact .returned hresult
  | returned hresult => exact .returned hresult

/-- **Uninterrupted**, a call does what `reserveOutputRows` says, however often its exchange
    fails. -/
theorem reserveAlone_returned {global : DatasetGlobalState} {requested granted : UInt64}
    {exchanges : List Bool} {counters counters' : DatasetCounters}
    (h : reserveAlone global requested exchanges counters = (counters', .returned granted)) :
    reserveOutputRows global counters requested = (granted, counters') := by
  have hat : ∀ (exchanges : List Bool) (state : DatasetCounters × ReservePoint),
      AloneAt global requested counters state →
      AloneAt global requested counters (exchanges.foldl
        (fun state succeeds => reserveStep global requested succeeds state.1 state.2) state) := by
    intro exchanges
    induction exchanges with
    | nil => exact fun _ hstate => hstate
    | cons succeeds exchanges ih => exact fun _ hstate => ih _ (hstate.step succeeds)
  have hend := hat exchanges _ .checkStop
  rw [← reserveAlone, h] at hend
  cases hend with
  | returned hresult => exact hresult

end RootLake.Dataset

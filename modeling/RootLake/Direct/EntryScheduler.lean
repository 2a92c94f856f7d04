/-
  RootLake/Direct/EntryScheduler.lean
  ===================================
  **Pruning the entries of a direct scan, and claiming them in batches.**

  The scan intersects the ranges of the optimizer's conditions and of the pushed filters.
  A scan of one file keeps the next row and the end of the pruned entries in the global
  state, and workers claim batches of them under a lock.  A scan of several files hands
  out files, and a worker clips the entries of its file to the range when it opens it.

  Histogram and browse scans have no entries and are left out.
-/
import RootLake.Direct.EntryPruning
import RootLake.Direct.FileScheduler

namespace RootLake.Direct

open RootLake.Runs Sql3 Dataset

/-! ### The global state -/

/-- The hints that `RootScanCollectPruningHints` leaves in the bind data. -/
structure EntryPruneHints where
  lower : UInt64 := 0
  upper : UInt64 := uint64Max
  impossible : Bool := false
  active : Bool := false
  deriving DecidableEq, Repr

/-- The loop over the conditions of one call: a condition of which nothing is known is skipped;
    `none` as long as there is no hint. -/
def combineHints (combined : Option RootUnsignedFilterRange) :
    List (Expression Int) → Option RootUnsignedFilterRange
  | [] => combined
  | condition :: rest =>
      let range := rootPruningExtract condition
      if !range.known then combineHints combined rest
      else
        match combined with
        | none => combineHints (some range) rest
        | some combined => combineHints (some (rootPruningIntersect combined range)) rest

/-- One call of the optimizer. -/
def rootScanCollectPruningHints (hints : EntryPruneHints) (conditions : List (Expression Int)) :
    EntryPruneHints :=
  match combineHints none conditions with
  | none => hints
  | some combined =>
      if combined.impossible then { hints with active := true, impossible := true }
      else
        let lower := stdMax hints.lower combined.lower
        let upper := stdMin hints.upper combined.upper
        { lower := lower
          upper := upper
          impossible := hints.impossible || decide (upper < lower)
          active := true }

/-- The column of a pushed filter: the entry id or the row id, the source id, or any other. -/
inductive FilterColumn where
  | entryId
  | sourceId
  | other
  deriving DecidableEq, Repr

/-- What the binder leaves for the scan; the number of files is a machine word. -/
structure RootScanBindData where
  rootPaths : List String
  totalRows : UInt64
  hints : EntryPruneHints
  fits : rootPaths.length < 2 ^ 64

def RootScanBindData.isMultiFile (bind : RootScanBindData) : Bool := decide (1 < bind.rootPaths.length)

structure RootScanGlobalState where
  nextRow : UInt64 := 0
  totalRows : UInt64 := 0
  entryLower : UInt64 := 0
  entryUpper : UInt64 := uint64Max
  sourceLower : UInt64 := 0
  sourceUpper : UInt64 := uint64Max
  entryRangeImpossible : Bool := false
  deriving DecidableEq, Repr

/-- A scan of one file without entries to read. -/
def RootScanGlobalState.withoutRows (global : RootScanGlobalState) (bind : RootScanBindData) :
    RootScanGlobalState :=
  if bind.isMultiFile then global
  else { global with nextRow := bind.totalRows, totalRows := bind.totalRows }

/-- The first step of `CreateGlobal`: the hints of the optimizer. -/
def applyHints (bind : RootScanBindData) : RootScanGlobalState :=
  let global : RootScanGlobalState := { totalRows := bind.totalRows }
  if !bind.hints.active then global
  else
    let lower := stdMax global.entryLower bind.hints.lower
    let upper := stdMin global.entryUpper bind.hints.upper
    let impossible := bind.hints.impossible || decide (upper < lower)
    let global :=
      { global with entryLower := lower, entryUpper := upper, entryRangeImpossible := impossible }
    if bind.isMultiFile then global
    else if impossible then global.withoutRows bind
    else
      { global with
        nextRow := stdMin bind.totalRows lower
        totalRows :=
          if upper = uint64Max then bind.totalRows else stdMin bind.totalRows (upper + 1) }

/-- The range of a filter on the entry id. -/
def narrowEntries (bind : RootScanBindData) (global : RootScanGlobalState)
    (range : RootUnsignedFilterRange) : RootScanGlobalState :=
  let bounded := range.upper ≠ uint64Max
  let global :=
    { global with
      entryLower := stdMax global.entryLower range.lower
      entryUpper := if bounded then stdMin global.entryUpper range.upper else global.entryUpper }
  if bind.isMultiFile then global
  else
    { global with
      nextRow := stdMax global.nextRow range.lower
      totalRows := if bounded then stdMin global.totalRows (range.upper + 1) else global.totalRows }

/-- The range of a filter on the source id. -/
def narrowSources (global : RootScanGlobalState) (range : RootUnsignedFilterRange) :
    RootScanGlobalState :=
  { global with
    sourceLower := stdMax global.sourceLower range.lower
    sourceUpper :=
      if range.upper ≠ uint64Max then stdMin global.sourceUpper range.upper
      else global.sourceUpper }

/-- The loop over the pushed filters; an impossible range ends it. -/
def applyFilters (bind : RootScanBindData) (global : RootScanGlobalState) :
    List (FilterColumn × TableFilter Int) → RootScanGlobalState
  | [] => global
  | (column, filter) :: rest =>
      let range := extractRootUnsignedRange filter
      if column = .sourceId ∧ bind.isMultiFile then
        if !range.known then applyFilters bind global rest
        else if range.impossible then { global with entryRangeImpossible := true }
        else applyFilters bind (narrowSources global range) rest
      else if column ≠ .entryId then applyFilters bind global rest
      else if !range.known then applyFilters bind global rest
      else if range.impossible then
        { global with entryRangeImpossible := true }.withoutRows bind
      else applyFilters bind (narrowEntries bind global range) rest

/-- `CreateGlobal`. -/
def createGlobal (bind : RootScanBindData) (filters : List (FilterColumn × TableFilter Int)) :
    RootScanGlobalState :=
  let global := applyFilters bind (applyHints bind) filters
  if global.entryUpper < global.entryLower then
    { global with entryRangeImpossible := true }.withoutRows bind
  else global

/-! ### The entries that are left -/

/-- The filters have not excluded the entry of the source. -/
structure Pruned (global : RootScanGlobalState) (source entry : Nat) : Prop where
  possible : global.entryRangeImpossible = false
  entryLower : global.entryLower.toNat ≤ entry
  entryUpper : entry ≤ global.entryUpper.toNat
  sourceLower : global.sourceLower.toNat ≤ source
  sourceUpper : source ≤ global.sourceUpper.toNat

theorem pruned_iff {global : RootScanGlobalState} {source entry : Nat} :
    Pruned global source entry ↔ global.entryRangeImpossible = false ∧
      (global.entryLower.toNat ≤ entry ∧ entry ≤ global.entryUpper.toNat) ∧
        global.sourceLower.toNat ≤ source ∧ source ≤ global.sourceUpper.toNat :=
  ⟨fun ⟨a, b, c, d, e⟩ => ⟨a, ⟨b, c⟩, d, e⟩, fun ⟨a, ⟨b, c⟩, d, e⟩ => ⟨a, b, c, d, e⟩⟩

instance (global : RootScanGlobalState) (source entry : Nat) :
    Decidable (Pruned global source entry) := decidable_of_iff _ pruned_iff.symm

/-- The entry and its source satisfy every condition the optimizer offered, and every pushed
    filter.  What a condition says about other columns is its truth in some row of the
    entry. -/
structure SatisfiesFilters (sem : SqlSemantics Int) (calls : List (List (Expression Int)))
    (filters : List (FilterColumn × TableFilter Int)) (source entry : Nat) : Prop where
  conditions : ∀ call ∈ calls, ∀ condition ∈ call,
    condition.meaning sem .bigint (entry : Int) = some true
  entries : ∀ filter, (FilterColumn.entryId, filter) ∈ filters →
    filter.meaning sem .bigint (entry : Int) = some true
  sources : ∀ filter, (FilterColumn.sourceId, filter) ∈ filters →
    filter.meaning sem .ubigint (source : Int) = some true

/-- The hints do not exclude the entry. -/
def EntryPruneHints.Keeps (hints : EntryPruneHints) (entry : Nat) : Prop :=
  hints.impossible = false ∧ hints.lower.toNat ≤ entry ∧ entry ≤ hints.upper.toNat

section

variable {sem : SqlSemantics Int} (h : BinderTypes sem) {entry : Nat}
variable (hfits : entry ≤ uint64Max.toNat)

include h hfits

theorem combineHints_admits (conditions : List (Expression Int)) :
    ∀ {combined : Option RootUnsignedFilterRange},
      (∀ condition ∈ conditions, condition.meaning sem .bigint (entry : Int) = some true) →
      (∀ range, combined = some range → range.known = true ∧ admits range entry) →
      ∀ range, combineHints combined conditions = some range →
        range.known = true ∧ admits range entry := by
  induction conditions with
  | nil => intro combined _ hcombined; exact hcombined
  | cons condition rest ih =>
    intro combined hmeaning hcombined
    obtain ⟨hfirst, hrest⟩ := List.forall_mem_cons.mp hmeaning
    have hadmits := admits_rootPruningExtract h (Int.natCast_nonneg entry)
      (Int.ofNat_le.mpr hfits) condition hfirst
    unfold combineHints
    dsimp only
    split
    next => exact ih hrest hcombined
    next hknown =>
      have hknown : (rootPruningExtract condition).known = true := by simpa using hknown
      cases combined with
      | none =>
        refine ih hrest ?_
        rintro range heq
        cases heq
        exact ⟨hknown, hadmits⟩
      | some combined =>
        obtain ⟨hcombinedKnown, hcombinedAdmits⟩ := hcombined combined rfl
        refine ih hrest ?_
        rintro range heq
        cases heq
        refine ⟨?_, admits_rootPruningIntersect hcombinedAdmits hadmits⟩
        have hpossible := (hcombinedAdmits hcombinedKnown).1
        unfold rootPruningIntersect
        rw [hcombinedKnown, hknown]
        simp only [Bool.not_true, Bool.false_eq_true, if_false]
        split
        next => rfl
        next =>
          split
          next => rfl
          next => rfl

/-- A call of the optimizer keeps the entries that satisfy its conditions. -/
theorem rootScanCollectPruningHints_keeps {hints : EntryPruneHints}
    {conditions : List (Expression Int)} (hkeeps : hints.Keeps entry)
    (hmeaning : ∀ condition ∈ conditions,
      condition.meaning sem .bigint (entry : Int) = some true) :
    (rootScanCollectPruningHints hints conditions).Keeps entry := by
  obtain ⟨hpossible, hlow, hhigh⟩ := hkeeps
  unfold rootScanCollectPruningHints
  split
  next => exact ⟨hpossible, hlow, hhigh⟩
  next combined hcombined =>
    obtain ⟨hknown, hadmits⟩ := combineHints_admits h hfits conditions hmeaning
      (fun range heq => by cases heq) combined hcombined
    obtain ⟨himpossible, hlower, hupper⟩ := hadmits hknown
    have hmax := toNat_stdMax hints.lower combined.lower
    have hmin := toNat_stdMin hints.upper combined.upper
    rw [if_neg (by rw [himpossible]; decide)]
    refine ⟨?_, ?_, ?_⟩
    · simp only [hpossible, Bool.false_or, decide_eq_false_iff_not, UInt64.lt_iff_toNat_lt]
      omega
    · dsimp only
      omega
    · dsimp only
      omega

theorem foldl_hints_keeps (calls : List (List (Expression Int))) :
    ∀ {hints : EntryPruneHints}, hints.Keeps entry →
      (∀ call ∈ calls, ∀ condition ∈ call,
        condition.meaning sem .bigint (entry : Int) = some true) →
      (calls.foldl rootScanCollectPruningHints hints).Keeps entry := by
  induction calls with
  | nil => intro hints hkeeps _; exact hkeeps
  | cons call calls ih =>
    intro hints hkeeps hmeaning
    obtain ⟨hcall, hcalls⟩ := List.forall_mem_cons.mp hmeaning
    exact ih (rootScanCollectPruningHints_keeps h hfits hkeeps hcall) hcalls

end

/-! ### What the global state keeps -/

/-- The word behind one that is not the greatest. -/
theorem toNat_succ {word : UInt64} (h : word ≠ uint64Max) : (word + 1).toNat = word.toNat + 1 := by
  have hmax := toNat_uint64Max
  have hlt := word.toNat_lt
  have hne : word.toNat ≠ uint64Max.toNat := fun heq => h (UInt64.toNat_inj.mp heq)
  have hone : (1 : UInt64).toNat = 1 := rfl
  rw [toNat_add_of_lt (by omega), hone]

section

variable {bind : RootScanBindData} {global : RootScanGlobalState} {source entry : Nat}

theorem withoutRows_eq_or (bind : RootScanBindData) (global : RootScanGlobalState) :
    (bind.isMultiFile = true ∧ global.withoutRows bind = global) ∨
      (bind.isMultiFile = false ∧ global.withoutRows bind =
        { global with nextRow := bind.totalRows, totalRows := bind.totalRows }) := by
  unfold RootScanGlobalState.withoutRows
  cases hmulti : bind.isMultiFile with
  | true => exact Or.inl ⟨rfl, rfl⟩
  | false => exact Or.inr ⟨rfl, rfl⟩

/-- Taking the rows away excludes no entry. -/
theorem pruned_withoutRows :
    Pruned (global.withoutRows bind) source entry ↔ Pruned global source entry := by
  rcases withoutRows_eq_or bind global with ⟨-, heq⟩ | ⟨-, heq⟩
  · rw [heq]
  · rw [heq, pruned_iff, pruned_iff]

theorem not_pruned_impossible :
    ¬ Pruned { global with entryRangeImpossible := true } source entry := by
  intro hpruned
  cases hpruned.possible

/-- The bounds that the hints leave. -/
theorem pruned_applyHints (hsource : source < 2 ^ 64) (hentry : entry < 2 ^ 64) :
    Pruned (applyHints bind) source entry ↔
      (bind.hints.active = true → bind.hints.Keeps entry) := by
  have hmax := toNat_uint64Max
  have hzero : (0 : UInt64).toNat = 0 := rfl
  unfold applyHints EntryPruneHints.Keeps
  cases hactive : bind.hints.active with
  | false =>
    rw [pruned_iff]
    simp only [Bool.not_false, if_true, Bool.false_eq_true, false_imp_iff, iff_true, true_and]
    omega
  | true =>
    have hlower := toNat_stdMax 0 bind.hints.lower
    have hupper := toNat_stdMin uint64Max bind.hints.upper
    have hword := bind.hints.upper.toNat_lt
    simp only [Bool.not_true, Bool.false_eq_true, if_false, forall_const]
    -- None of the branches below changes a bound.
    have hbounds : (Pruned { entryLower := stdMax 0 bind.hints.lower
                             entryUpper := stdMin uint64Max bind.hints.upper
                             totalRows := bind.totalRows
                             entryRangeImpossible := bind.hints.impossible ||
                               decide (stdMin uint64Max bind.hints.upper <
                                 stdMax 0 bind.hints.lower) } source entry) ↔
        bind.hints.impossible = false ∧ bind.hints.lower.toNat ≤ entry ∧
          entry ≤ bind.hints.upper.toNat := by
      rw [pruned_iff]
      simp only [Bool.or_eq_false_iff, decide_eq_false_iff_not, UInt64.lt_iff_toNat_lt]
      constructor
      · rintro ⟨⟨hpossible, -⟩, ⟨hlow, hhigh⟩, -⟩
        exact ⟨hpossible, by omega, by omega⟩
      · rintro ⟨hpossible, hlow, hhigh⟩
        exact ⟨⟨hpossible, by omega⟩, by omega, by omega⟩
    rw [← hbounds]
    split
    next => exact Iff.rfl
    next =>
      split
      next => exact pruned_withoutRows
      next => rw [pruned_iff, pruned_iff]

/-- A range on the entry id narrows the bounds to it. -/
theorem pruned_narrowEntries {range : RootUnsignedFilterRange} (hentry : entry < 2 ^ 64) :
    Pruned (narrowEntries bind global range) source entry ↔
      Pruned global source entry ∧ range.lower.toNat ≤ entry ∧ entry ≤ range.upper.toNat := by
  have hmax := toNat_uint64Max
  have hlower := toNat_stdMax global.entryLower range.lower
  have hupper : ∀ upper : UInt64, (if range.upper ≠ uint64Max then
      stdMin global.entryUpper range.upper else global.entryUpper) = upper →
      (entry ≤ upper.toNat ↔ entry ≤ global.entryUpper.toNat ∧ entry ≤ range.upper.toNat) := by
    rintro upper rfl
    have hmin := toNat_stdMin global.entryUpper range.upper
    split
    next => omega
    next h =>
      rw [not_not.mp h]
      omega
  rw [pruned_iff, pruned_iff]
  unfold narrowEntries
  dsimp only
  split
  next =>
    refine Iff.trans (and_congr_right fun _ => ?_) and_assoc.symm
    dsimp only
    rw [hupper _ rfl]
    omega
  next =>
    refine Iff.trans (and_congr_right fun _ => ?_) and_assoc.symm
    dsimp only
    rw [hupper _ rfl]
    omega

theorem pruned_narrowSources {range : RootUnsignedFilterRange} (hsource : source < 2 ^ 64) :
    Pruned (narrowSources global range) source entry ↔
      Pruned global source entry ∧ range.lower.toNat ≤ source ∧ source ≤ range.upper.toNat := by
  have hmax := toNat_uint64Max
  have hlower := toNat_stdMax global.sourceLower range.lower
  have hmin := toNat_stdMin global.sourceUpper range.upper
  rw [pruned_iff, pruned_iff]
  unfold narrowSources
  refine Iff.trans (and_congr_right fun _ => ?_) and_assoc.symm
  dsimp only
  split
  next => omega
  next h =>
    rw [not_not.mp h]
    omega

/-! ### The rows of one file -/

/-- The rows of a scan of one file are the entries that are left of it. -/
def WindowFits (bind : RootScanBindData) (global : RootScanGlobalState) : Prop :=
  bind.isMultiFile = false → ∀ entry : Nat, entry < 2 ^ 64 →
    ((global.nextRow.toNat ≤ entry ∧ entry < global.totalRows.toNat) ↔
      Pruned global 0 entry ∧ entry < bind.totalRows.toNat)

theorem withoutRows_windowFits :
    WindowFits bind ({ global with entryRangeImpossible := true }.withoutRows bind) := by
  intro hsingle entry _
  rw [pruned_withoutRows]
  rcases withoutRows_eq_or bind { global with entryRangeImpossible := true } with
    ⟨hmulti, -⟩ | ⟨-, heq⟩
  · rw [hsingle] at hmulti
    cases hmulti
  · rw [heq]
    constructor
    · rintro ⟨hlow, hhigh⟩
      dsimp only at hlow hhigh
      omega
    · rintro ⟨hpruned, -⟩
      exact absurd hpruned not_pruned_impossible

theorem applyHints_windowFits : WindowFits bind (applyHints bind) := by
  intro hsingle entry hentry
  have hmax := toNat_uint64Max
  have hzero : (0 : UInt64).toNat = 0 := rfl
  have hbounds := @pruned_applyHints bind 0 entry (by omega) hentry
  rw [hbounds]
  unfold applyHints EntryPruneHints.Keeps
  cases hactive : bind.hints.active with
  | false =>
    simp only [Bool.not_false, if_true, Bool.false_eq_true, false_imp_iff, true_and]
    omega
  | true =>
    simp only [Bool.not_true, Bool.false_eq_true, if_false, forall_const, hsingle]
    have hlower := toNat_stdMax 0 bind.hints.lower
    have hupper := toNat_stdMin uint64Max bind.hints.upper
    have hword := bind.hints.upper.toNat_lt
    split
    next himpossible =>
      unfold RootScanGlobalState.withoutRows
      simp only [hsingle, Bool.false_eq_true, if_false]
      simp only [Bool.or_eq_true, decide_eq_true_eq, UInt64.lt_iff_toNat_lt] at himpossible
      constructor
      · rintro ⟨hlow, hhigh⟩
        omega
      · rintro ⟨⟨hpossible, hlow, hhigh⟩, -⟩
        rcases himpossible with himpossible | hlt
        · rw [hpossible] at himpossible
          cases himpossible
        · omega
    next himpossible =>
      simp only [Bool.or_eq_true, decide_eq_true_eq, not_or, Bool.not_eq_true] at himpossible
      have hnext := toNat_stdMin bind.totalRows (stdMax 0 bind.hints.lower)
      dsimp only
      split
      next hunbounded =>
        rw [hunbounded] at hupper
        have htotal := bind.totalRows.toNat_lt
        simp only [himpossible.1, true_and]
        omega
      next hbounded =>
        have hsucc := toNat_succ hbounded
        have hstop := toNat_stdMin bind.totalRows (stdMin uint64Max bind.hints.upper + 1)
        simp only [himpossible.1, true_and]
        omega

theorem narrowEntries_windowFits {range : RootUnsignedFilterRange} (h : WindowFits bind global) :
    WindowFits bind (narrowEntries bind global range) := by
  intro hsingle entry hentry
  have hmax := toNat_uint64Max
  have hrow := h hsingle entry hentry
  rw [pruned_narrowEntries hentry, and_right_comm, ← hrow]
  unfold narrowEntries
  simp only [hsingle, Bool.false_eq_true, if_false]
  have hnext := toNat_stdMax global.nextRow range.lower
  split
  next hbounded =>
    have hsucc := toNat_succ hbounded
    have hstop := toNat_stdMin global.totalRows (range.upper + 1)
    omega
  next hunbounded =>
    rw [not_not.mp hunbounded]
    omega

/-- The loop over the filters. -/
theorem applyFilters_windowFits (filters : List (FilterColumn × TableFilter Int)) :
    ∀ {global : RootScanGlobalState}, WindowFits bind global →
      WindowFits bind (applyFilters bind global filters) := by
  induction filters with
  | nil => intro global h; exact h
  | cons filter rest ih =>
    intro global h
    obtain ⟨column, filter⟩ := filter
    rw [applyFilters]
    split
    next hsource =>
      split
      next => exact ih h
      next =>
        -- The source id narrows a scan of several files only.
        have hvacuous : ∀ global, WindowFits bind global := by
          intro global hsingle
          rw [hsource.2] at hsingle
          cases hsingle
        split
        next => exact hvacuous _
        next => exact ih (hvacuous _)
    next =>
      split
      next => exact ih h
      next =>
        split
        next => exact ih h
        next =>
          split
          next => exact withoutRows_windowFits
          next => exact ih (narrowEntries_windowFits h)

theorem createGlobal_windowFits (bind : RootScanBindData)
    (filters : List (FilterColumn × TableFilter Int)) :
    WindowFits bind (createGlobal bind filters) := by
  unfold createGlobal
  dsimp only
  split
  next => exact withoutRows_windowFits
  next => exact applyFilters_windowFits filters applyHints_windowFits

/-! ### Entries that satisfy the filters -/

variable {sem : SqlSemantics Int} (h : BinderTypes sem)
variable (hsource : source < 2 ^ 64) (hentry : entry < 2 ^ 64)

include h hsource hentry

/-- The filters keep an entry that satisfies them. -/
theorem applyFilters_keeps (filters : List (FilterColumn × TableFilter Int)) :
    ∀ {global : RootScanGlobalState}, Pruned global source entry →
      (∀ filter, (FilterColumn.entryId, filter) ∈ filters →
        filter.meaning sem .bigint (entry : Int) = some true) →
      (∀ filter, (FilterColumn.sourceId, filter) ∈ filters →
        filter.meaning sem .ubigint (source : Int) = some true) →
      Pruned (applyFilters bind global filters) source entry := by
  have hmax := toNat_uint64Max
  have hadmits : ∀ {t : LogicalTypeId} {n : Nat} {filter : TableFilter Int},
      isIntegral t = true → n < 2 ^ 64 → filter.meaning sem t (n : Int) = some true →
      (extractRootUnsignedRange filter).known = true →
      (extractRootUnsignedRange filter).impossible = false ∧
        (extractRootUnsignedRange filter).lower.toNat ≤ n ∧
          n ≤ (extractRootUnsignedRange filter).upper.toNat := by
    intro t n filter ht hn hmeaning hknown
    obtain ⟨hpossible, hlow, hhigh⟩ := admits_extractRootUnsignedRange h.comparesIntegers ht
      (Int.natCast_nonneg n) (Int.ofNat_le.mpr (by omega)) hmeaning hknown
    exact ⟨hpossible, by omega, by omega⟩
  induction filters with
  | nil => intro global hpruned _ _; exact hpruned
  | cons first rest ih =>
    obtain ⟨column, filter⟩ := first
    intro global hpruned hentries hsources
    have hrestEntries := fun f hmem => hentries f (List.mem_cons_of_mem _ hmem)
    have hrestSources := fun f hmem => hsources f (List.mem_cons_of_mem _ hmem)
    rw [applyFilters]
    split
    next hcolumn =>
      obtain ⟨rfl, -⟩ := hcolumn
      split
      next => exact ih hpruned hrestEntries hrestSources
      next hknown =>
        obtain ⟨hpossible, hrange⟩ := hadmits rfl hsource (hsources filter List.mem_cons_self)
          (by simpa using hknown)
        rw [if_neg (by rw [hpossible]; decide)]
        exact ih ((pruned_narrowSources hsource).mpr ⟨hpruned, hrange⟩) hrestEntries hrestSources
    next =>
      split
      next => exact ih hpruned hrestEntries hrestSources
      next hcolumn =>
        have hcolumn := not_not.mp hcolumn
        rw [hcolumn] at hentries
        split
        next => exact ih hpruned hrestEntries hrestSources
        next hknown =>
          obtain ⟨hpossible, hrange⟩ := hadmits rfl hentry (hentries filter List.mem_cons_self)
            (by simpa using hknown)
          rw [if_neg (by rw [hpossible]; decide)]
          exact ih ((pruned_narrowEntries hentry).mpr ⟨hpruned, hrange⟩) hrestEntries hrestSources

/-- **Pruning is sound**: an entry that satisfies every filter is left. -/
theorem createGlobal_keeps {calls : List (List (Expression Int))}
    {filters : List (FilterColumn × TableFilter Int)}
    (hhints : bind.hints = calls.foldl rootScanCollectPruningHints {})
    (hsatisfies : SatisfiesFilters sem calls filters source entry) :
    Pruned (createGlobal bind filters) source entry := by
  have hmax := toNat_uint64Max
  have hstart : ({} : EntryPruneHints).Keeps entry := ⟨rfl, Nat.zero_le _, by dsimp only; omega⟩
  have hkeeps : bind.hints.Keeps entry := by
    rw [hhints]
    exact foldl_hints_keeps h (by omega) calls hstart hsatisfies.conditions
  have hpruned : Pruned (applyFilters bind (applyHints bind) filters) source entry :=
    applyFilters_keeps h hsource hentry filters
      ((pruned_applyHints hsource hentry).mpr fun _ => hkeeps) hsatisfies.entries
      hsatisfies.sources
  unfold createGlobal
  dsimp only
  split
  next hempty =>
    rw [UInt64.lt_iff_toNat_lt] at hempty
    have hlow := hpruned.entryLower
    have hhigh := hpruned.entryUpper
    omega
  next => exact hpruned

end

/-! ### Claiming batches of one file -/

/-- Entries `[start, stop)`. -/
structure WorkBatch where
  start : UInt64
  stop : UInt64
  deriving DecidableEq, Repr

def WorkBatch.hasWork (batch : WorkBatch) : Bool := decide (batch.start < batch.stop)

def WorkBatch.covers (batch : WorkBatch) (entry : Nat) : Prop :=
  batch.start.toNat ≤ entry ∧ entry < batch.stop.toNat

instance (batch : WorkBatch) (entry : Nat) : Decidable (batch.covers entry) :=
  inferInstanceAs (Decidable (_ ∧ _))

/-- `RootEntryScheduler::DEFAULT_BATCH_SIZE`. -/
def defaultBatchSize : UInt64 := 65536

/-- `ClaimWork`, under the lock: the batch and the next row. -/
def claimWork (nextRow totalRows preferredBatchSize : UInt64) : WorkBatch × UInt64 :=
  if totalRows ≤ nextRow then (⟨0, 0⟩, nextRow)
  else
    let size := if preferredBatchSize = 0 then defaultBatchSize else preferredBatchSize
    let stop := nextRow + stdMin size (totalRows - nextRow)
    (⟨nextRow, stop⟩, stop)

/-- The next row, the batches claimed so far, and whether a claim came back without work. -/
structure ClaimState (W : Type) where
  nextRow : UInt64
  claimed : List (W × WorkBatch) := []
  refused : Bool := false

/-- `ClaimEntryBatch` of a worker. -/
def claimEntryBatch {W : Type} (global : RootScanGlobalState) (s : ClaimState W) (w : W)
    (preferredBatchSize : UInt64) : ClaimState W :=
  let claim := claimWork s.nextRow global.totalRows preferredBatchSize
  if claim.1.hasWork then
    { s with nextRow := claim.2, claimed := s.claimed ++ [(w, claim.1)] }
  else { s with nextRow := claim.2, refused := true }

/-- The runs of the workers of a scan of one file. -/
def claiming (W : Type) (global : RootScanGlobalState) : System (ClaimState W) (W × UInt64) where
  init s := s = { nextRow := global.nextRow }
  step s claim t := t = claimEntryBatch global s claim.1 claim.2

/-- How many claimed batches hold the entry. -/
def ClaimState.timesClaimed {W : Type} (s : ClaimState W) (entry : Nat) : Nat :=
  s.claimed.countP fun claim => decide (claim.2.covers entry)

/-- What has been claimed: the rows from the first one to the next one. -/
structure ClaimedUpTo {W : Type} (global : RootScanGlobalState) (s : ClaimState W) : Prop where
  start : global.nextRow.toNat ≤ s.nextRow.toNat
  stop : s.nextRow.toNat ≤ max global.nextRow.toNat global.totalRows.toNat
  once : ∀ entry, s.timesClaimed entry =
    if global.nextRow.toNat ≤ entry ∧ entry < s.nextRow.toNat then 1 else 0
  refused : s.refused = true → global.totalRows.toNat ≤ s.nextRow.toNat

theorem claimWork_spec (nextRow totalRows preferredBatchSize : UInt64) :
    (totalRows.toNat ≤ nextRow.toNat ∧
        claimWork nextRow totalRows preferredBatchSize = (⟨0, 0⟩, nextRow)) ∨
      ∃ stop : UInt64, claimWork nextRow totalRows preferredBatchSize = (⟨nextRow, stop⟩, stop) ∧
        nextRow.toNat < stop.toNat ∧ stop.toNat ≤ totalRows.toNat := by
  unfold claimWork
  dsimp only
  split
  next hdone => exact Or.inl ⟨UInt64.le_iff_toNat_le.mp hdone, rfl⟩
  next hmore =>
    rw [UInt64.le_iff_toNat_le] at hmore
    refine Or.inr ⟨_, rfl, ?_⟩
    have hsize : 0 < (if preferredBatchSize = 0 then defaultBatchSize
        else preferredBatchSize).toNat := by
      split
      next => decide
      next hne =>
        have hpos : preferredBatchSize.toNat ≠ 0 := fun heq => hne (UInt64.toNat_inj.mp heq)
        omega
    have hremaining := @toNat_sub_of_le totalRows nextRow (by omega)
    have hcount := toNat_stdMin (if preferredBatchSize = 0 then defaultBatchSize
      else preferredBatchSize) (totalRows - nextRow)
    have htotal := totalRows.toNat_lt
    rw [toNat_add_of_lt (by omega)]
    omega

/-- **Step lemma**: a claim takes the next rows. -/
theorem claimEntryBatch_claimedUpTo {W : Type} {global : RootScanGlobalState} {s : ClaimState W}
    (h : ClaimedUpTo global s) (w : W) (preferredBatchSize : UInt64) :
    ClaimedUpTo global (claimEntryBatch global s w preferredBatchSize) := by
  unfold claimEntryBatch
  rcases claimWork_spec s.nextRow global.totalRows preferredBatchSize with
    ⟨hdone, heq⟩ | ⟨stop, heq, hlt, hle⟩
  · rw [heq]
    exact ⟨h.start, h.stop, h.once, fun _ => hdone⟩
  · have hwork : (⟨s.nextRow, stop⟩ : WorkBatch).hasWork = true :=
      decide_eq_true (UInt64.lt_iff_toNat_lt.mpr hlt)
    have hstart := h.start
    have hstop := h.stop
    rw [heq]
    dsimp only
    rw [if_pos hwork]
    refine ⟨by dsimp only; omega, by dsimp only; omega, ?_, ?_⟩
    · intro entry
      have honce := h.once entry
      unfold ClaimState.timesClaimed at honce ⊢
      rw [List.countP_append, honce, List.countP_singleton]
      dsimp only
      by_cases hin : (⟨s.nextRow, stop⟩ : WorkBatch).covers entry
      · obtain ⟨hlow, hhigh⟩ := hin
        dsimp only at hlow hhigh
        rw [if_pos (decide_eq_true ⟨hlow, hhigh⟩), if_neg (by omega), if_pos (by omega)]
      · have hout : ¬ (s.nextRow.toNat ≤ entry ∧ entry < stop.toNat) := hin
        have hzero : (if decide ((⟨s.nextRow, stop⟩ : WorkBatch).covers entry) = true then 1
            else 0) = 0 := if_neg fun heq => hin (of_decide_eq_true heq)
        rw [hzero, Nat.add_zero]
        refine if_congr ?_ rfl rfl
        omega
    · intro hrefused
      have hbehind := h.refused hrefused
      dsimp only
      omega

theorem claimedUpTo_of_reachable {W : Type} {global : RootScanGlobalState} {s : ClaimState W}
    (h : (claiming W global).Reachable s) : ClaimedUpTo global s := by
  refine System.Reachable.invariant (I := fun q => ClaimedUpTo global q) h ?_ ?_
  · rintro _ rfl
    refine ⟨Nat.le_refl _, Nat.le_max_left _ _, ?_, fun hr => by cases hr⟩
    intro entry
    rw [if_neg (by dsimp only; omega)]
    rfl
  · rintro s claim t hs rfl
    exact claimEntryBatch_claimedUpTo hs claim.1 claim.2

/-! ### Opening a file of several -/

/-- The rows that `Open` gives a worker in a file with the given entries. -/
def openBatch (global : RootScanGlobalState) (entries : UInt64) : WorkBatch where
  start := if global.entryRangeImpossible then entries else stdMin entries global.entryLower
  stop :=
    if global.entryUpper ≠ uint64Max then stdMin entries (global.entryUpper + 1) else entries

/-- The scheduler of the files, with the source range. -/
def fileScheduler (bind : RootScanBindData) (global : RootScanGlobalState) :
    RootDirectFileScheduler where
  files := bind.rootPaths
  sourceLower := global.sourceLower.toNat
  sourceUpper := global.sourceUpper.toNat

theorem openBatch_covers {global : RootScanGlobalState} {entries : UInt64} {source entry : Nat}
    (hsource : global.sourceLower.toNat ≤ source ∧ source ≤ global.sourceUpper.toNat) :
    (openBatch global entries).covers entry ↔
      Pruned global source entry ∧ entry < entries.toNat := by
  have hword := entries.toNat_lt
  have hmax := toNat_uint64Max
  have hstop : (openBatch global entries).stop.toNat =
      min entries.toNat (global.entryUpper.toNat + 1) := by
    unfold openBatch
    dsimp only
    split
    next hbounded => rw [toNat_stdMin, toNat_succ hbounded]
    next hunbounded =>
      rw [not_not.mp hunbounded]
      omega
  unfold WorkBatch.covers
  rw [hstop, pruned_iff]
  unfold openBatch
  dsimp only
  split
  next himpossible =>
    constructor
    · rintro ⟨hlow, hhigh⟩
      omega
    · rintro ⟨⟨hpossible, -⟩, -⟩
      rw [hpossible] at himpossible
      cases himpossible
  next hpossible =>
    have hpossible := Bool.eq_false_of_not_eq_true hpossible
    have hstart := toNat_stdMin entries global.entryLower
    simp only [hpossible, true_and]
    omega

/-- How many of the files handed out give a worker the entry. -/
def timesOpened {W : Type} (global : RootScanGlobalState) (entries : Nat → UInt64)
    (s : SchedulerState W) (source entry : Nat) : Nat :=
  s.handedOut.countP fun handed =>
    decide (handed.2.sourceId = source) &&
      decide ((openBatch global (entries handed.2.sourceId)).covers entry)

/-- A file is opened by one worker at most. -/
theorem timesOpened_le_one {W : Type} {global : RootScanGlobalState}
    {entries : Nat → UInt64} {s : SchedulerState W}
    (h : (s.handedOut.map fun handed => handed.2.sourceId).Nodup) (source entry : Nat) :
    timesOpened global entries s source entry ≤ 1 := by
  calc timesOpened global entries s source entry
      ≤ s.handedOut.countP fun handed => decide (handed.2.sourceId = source) := by
        refine List.countP_mono_left ?_
        intro handed _ hboth
        exact (Bool.and_eq_true _ _ ▸ hboth).1
    _ = (s.handedOut.map fun handed => handed.2.sourceId).count source := by
        rw [List.count, List.countP_map]
        rfl
    _ ≤ 1 := List.nodup_iff_count_le_one.mp h source

/-! ### The scan -/

/-- The rows left for the workers of a scan of one file. -/
theorem timesClaimed_of_done {W : Type} {bind : RootScanBindData} {global : RootScanGlobalState}
    (hwindow : WindowFits bind global) (hsingle : bind.isMultiFile = false) {s : ClaimState W}
    (h : ClaimedUpTo global s) (hdone : global.entryRangeImpossible = true ∨ s.refused = true)
    (entry : Nat) :
    s.timesClaimed entry =
      if Pruned global 0 entry ∧ entry < bind.totalRows.toNat then 1 else 0 := by
  have hstop := h.stop
  have hword := s.nextRow.toNat_lt
  have htotal := global.totalRows.toNat_lt
  rw [h.once]
  refine if_congr ?_ rfl rfl
  by_cases hentry : entry < 2 ^ 64
  · rw [← hwindow hsingle entry hentry]
    rcases hdone with himpossible | hrefused
    · -- Nothing is left, and nothing was claimed.
      have hempty : ¬ (global.nextRow.toNat < global.totalRows.toNat) := by
        intro hlt
        have hrow := (hwindow hsingle global.nextRow.toNat (by omega)).mp ⟨Nat.le_refl _, hlt⟩
        have hpossible := hrow.1.possible
        rw [himpossible] at hpossible
        cases hpossible
      omega
    · have hbehind := h.refused hrefused
      omega
  · have hrows := bind.totalRows.toNat_lt
    constructor
    · rintro ⟨-, hlt⟩
      omega
    · rintro ⟨-, hlt⟩
      omega

/-- The entries left for the workers of a scan of several files. -/
theorem timesOpened_of_done {W : Type} {bind : RootScanBindData} {global : RootScanGlobalState}
    {entries : Nat → UInt64} {s : SchedulerState W}
    (h : RootDirectFileScheduler.ExactlyOnce (fileScheduler bind global) s)
    (hdone : global.entryRangeImpossible = true ∨ s.refused = true) (source entry : Nat) :
    timesOpened global entries s source entry =
      if source < bind.rootPaths.length ∧ Pruned global source entry ∧
        entry < (entries source).toNat then 1 else 0 := by
  have hrange : ∀ task : RootDirectFileTask, (fileScheduler bind global).inRange task = true ↔
      global.sourceLower.toNat ≤ task.sourceId ∧ task.sourceId ≤ global.sourceUpper.toNat := by
    intro task
    unfold RootDirectFileScheduler.inRange fileScheduler
    simp
  split
  next hleft =>
    obtain ⟨hfile, hpruned, hentry⟩ := hleft
    refine Nat.le_antisymm (timesOpened_le_one h.handedOnce source entry) ?_
    have hrefused : s.refused = true := by
      refine hdone.resolve_left ?_
      rw [hpruned.possible]
      decide
    have htask : (fileScheduler bind global).tasks[source]? =
        some ⟨source, bind.rootPaths.get ⟨source, hfile⟩⟩ := by
      rw [RootDirectFileScheduler.getElem?_tasks]
      exact congrArg (Option.map _) (List.getElem?_eq_getElem hfile)
    obtain ⟨w, hmem⟩ := h.exhausted hrefused _ (List.mem_of_getElem? htask)
      ((hrange _).mpr ⟨hpruned.sourceLower, hpruned.sourceUpper⟩)
    refine List.countP_pos_iff.mpr ⟨_, hmem, ?_⟩
    have hcovers := (openBatch_covers ⟨hpruned.sourceLower, hpruned.sourceUpper⟩).mpr
      ⟨hpruned, hentry⟩
    simp [hcovers]
  next hout =>
    refine List.countP_eq_zero.mpr ?_
    intro handed hmem hboth
    rw [Bool.and_eq_true, decide_eq_true_eq, decide_eq_true_eq] at hboth
    obtain ⟨rfl, hcovers⟩ := hboth
    obtain ⟨htask, hin⟩ := h.handedInRange handed hmem
    have hsource := (hrange _).mp hin
    obtain ⟨index, hindex⟩ := List.mem_iff_getElem?.mp htask
    rw [RootDirectFileScheduler.getElem?_tasks] at hindex
    obtain ⟨path, hpath, heq⟩ := Option.map_eq_some_iff.mp hindex
    refine hout ⟨?_, (openBatch_covers hsource).mp hcovers⟩
    rw [← heq]
    exact (List.getElem?_eq_some_iff.mp hpath).1

/-- **Direct-scan pruning is sound, and the batches are the pruned entries.**  An entry that
    satisfies every filter is left by the pruning.  In a scan of one file the workers'
    batches are disjoint, and when the claims are through they hold every entry that is left
    exactly once; in a scan of several files the same is true of the batches that the
    workers open in the files they are handed. -/
theorem direct_scan_claims_pruned_entries {sem : SqlSemantics Int} (h : BinderTypes sem)
    (W : Type) [Fintype W] [DecidableEq W] (paths : List String) (fits : paths.length < 2 ^ 64)
    (entries : Nat → UInt64) (calls : List (List (Expression Int)))
    (filters : List (FilterColumn × TableFilter Int)) :
    let bind : RootScanBindData :=
      ⟨paths, entries 0, calls.foldl rootScanCollectPruningHints {}, fits⟩
    let global := createGlobal bind filters
    (∀ source entry : Nat, source < paths.length → entry < (entries source).toNat →
      SatisfiesFilters sem calls filters source entry → Pruned global source entry) ∧
    (bind.isMultiFile = false → ∀ s : ClaimState W, (claiming W global).Reachable s →
      (∀ entry, s.timesClaimed entry ≤ 1) ∧
      (global.entryRangeImpossible = true ∨ s.refused = true → ∀ entry : Nat,
        s.timesClaimed entry =
          if Pruned global 0 entry ∧ entry < (entries 0).toNat then 1 else 0)) ∧
    (bind.isMultiFile = true → ∀ s : SchedulerState W,
      (RootDirectFileScheduler.scheduling W (fileScheduler bind global)).Reachable s →
      (∀ source entry, timesOpened global entries s source entry ≤ 1) ∧
      (global.entryRangeImpossible = true ∨ s.refused = true → ∀ source entry : Nat,
        timesOpened global entries s source entry =
          if source < paths.length ∧ Pruned global source entry ∧
            entry < (entries source).toNat then 1 else 0)) := by
  intro bind global
  refine ⟨?_, ?_, ?_⟩
  · intro source entry hsource hentry hsatisfies
    have hword := (entries source).toNat_lt
    exact createGlobal_keeps h (by omega) (by omega) rfl hsatisfies
  · intro hsingle s hreach
    have hclaimed := claimedUpTo_of_reachable hreach
    refine ⟨?_, fun hdone => timesClaimed_of_done (createGlobal_windowFits bind filters) hsingle
      hclaimed hdone⟩
    intro entry
    rw [hclaimed.once]
    split
    next => exact Nat.le_refl _
    next => exact Nat.zero_le _
  · intro _ s hreach
    have honce := (RootDirectFileScheduler.accounted_of_reachable hreach).exactlyOnce
    exact ⟨timesOpened_le_one honce.handedOnce, timesOpened_of_done honce⟩

/-! ### A filtered scan -/

/-- An engine that casts a value to its own type, and compares numbers of one type only. -/
def typedSemantics : SqlSemantics Int where
  castValue value type := if type = value.type then some value else none
  compareOther _ _ _ := none

/-- The filter `entry_id < 100`, in the order in which it was written. -/
def firstHundred : TableFilter Int :=
  .expression (.comparison .compareGreaterThan (.constant (.number .bigint 100)) .column)

/-- Two workers, one file of 70000 entries: one batch of 100 rows, and one claim in vain. -/
theorem direct_scan_claims_first_hundred :
    ∃ s : ClaimState Bool, s.claimed = [(true, ⟨0, 100⟩)] ∧ ∀ entry : Nat,
      s.timesClaimed entry =
        if Pruned (createGlobal ⟨["a.root"], 70000, {}, by decide⟩ [(.entryId, firstHundred)]) 0
          entry ∧ entry < 70000 then 1 else 0 := by
  have htypes : BinderTypes typedSemantics :=
    ⟨fun _ => if_pos rfl, fun _ _ _ _ => nofun, fun _ _ _ _ => nofun⟩
  obtain ⟨-, hsingle, -⟩ := direct_scan_claims_pruned_entries htypes Bool ["a.root"] (by decide)
    (fun _ => 70000) [] [(.entryId, firstHundred)]
  have hreach : (claiming Bool (createGlobal ⟨["a.root"], 70000, {}, by decide⟩
      [(.entryId, firstHundred)])).Reachable
        ⟨100, [(true, ⟨0, 100⟩)], true⟩ :=
    .step (.step (.init rfl) (l := (true, 0)) trivial rfl) (l := (false, 0)) trivial rfl
  exact ⟨_, rfl, (hsingle rfl _ hreach).2 (Or.inr rfl)⟩

end RootLake.Direct

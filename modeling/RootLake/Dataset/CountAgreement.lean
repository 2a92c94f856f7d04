/-
  RootLake/Dataset/CountAgreement.lean
  ====================================
  **When the metadata-only count is the number of rows of the scan.**

  The rows of an index are followed through the basket query, the plan and the groups to the
  workers: the planned tasks hold the values of the fetched baskets, the workers owe one row
  for each of them, and emit more only where a typed page is repeated.  Planning stops early
  only with more values planned than the row limit allows.
-/
import RootLake.Dataset.MetadataCount
import Mathlib.Algebra.Order.BigOperators.Group.List
import Mathlib.Algebra.Order.Ring.Nat

namespace RootLake.Dataset

open Ieee Index Batch Budget

/-! ### The values of the planned tasks -/

/-- The values of a task, when entry `e` of a file has `count uri schema e` of them. -/
def taskValues (count : String → String → Nat → Nat) (task : RootBasketTask) : Nat :=
  ∑ e ∈ Finset.Ico task.entryBegin.toNat task.entryEnd.toNat, count task.rootUri task.schemaId e

/-- The files of a dataset, as the reader sees them. -/
structure FileContents (indexCount : Nat) where
  eventBase : String → UInt64
  entries : String → UInt64
  values : String → String → UInt64 → List (DecodedValue indexCount)
  keysFit : ∀ uri, (eventBase uri).toNat + (entries uri).toNat ≤ 2 ^ 64

/-- The number of values of an entry. -/
def FileContents.count {indexCount : Nat} (contents : FileContents indexCount)
    (uri schemaId : String) (entry : Nat) : Nat :=
  (contents.values uri schemaId (UInt64.ofNat entry)).length

/-- A task for entries of its file. -/
structure RootBasketTask.InFile {indexCount : Nat} (contents : FileContents indexCount)
    (task : RootBasketTask) : Prop where
  nonempty : task.entryBegin.toNat < task.entryEnd.toNat
  eventBase : task.eventBase = contents.eventBase task.rootUri
  inFile : task.entryEnd.toNat ≤ (contents.entries task.rootUri).toNat

section

variable {count : String → String → Nat → Nat} {indexCount : Nat}
variable {contents : FileContents indexCount} {input : PlanInput}

theorem scheduleCandidate_values {tasks tasks' : List RootBasketTask} {candidate : RootBasketTask}
    (h : scheduleCandidate input tasks candidate = .ok tasks')
    (htasks : ∀ task ∈ tasks, task.InFile contents)
    (hcandidate : candidate.InFile contents) :
    (∀ task ∈ tasks', task.InFile contents) ∧
      (tasks'.map (taskValues count)).sum =
        (tasks.map (taskValues count)).sum + taskValues count candidate := by
  have hpush : (∀ task ∈ candidate :: tasks, task.InFile contents) ∧
      ((candidate :: tasks).map (taskValues count)).sum =
        (tasks.map (taskValues count)).sum + taskValues count candidate := by
    refine ⟨List.forall_mem_cons.mpr ⟨hcandidate, htasks⟩, ?_⟩
    rw [List.map_cons, List.sum_cons, Nat.add_comm]
  cases tasks with
  | nil =>
    cases h
    exact hpush
  | cons previous older =>
    simp only [scheduleCandidate] at h
    by_cases hcontinues : continuesTask input previous candidate = true
    · rw [if_pos hcontinues] at h
      split at h
      next => cases h
      next =>
        cases h
        obtain ⟨hprevious, holder⟩ := List.forall_mem_cons.mp htasks
        simp only [continuesTask, Bool.and_eq_true, beq_iff_eq] at hcontinues
        obtain ⟨⟨⟨⟨⟨huri, -⟩, hschema⟩, hadjacent⟩, -⟩, -⟩ := hcontinues
        have hfirst := hprevious.nonempty
        have hsecond := hcandidate.nonempty
        constructor
        · refine List.forall_mem_cons.mpr ⟨⟨?_, hprevious.eventBase, ?_⟩, holder⟩
          · rw [← hadjacent] at hsecond
            exact Nat.lt_trans hfirst hsecond
          · have hinFile := hcandidate.inFile
            rw [← huri] at hinFile
            exact hinFile
        · have hjoined : taskValues count (extendTask previous candidate) =
              taskValues count previous + taskValues count candidate := by
            unfold taskValues extendTask
            dsimp only
            rw [huri, hschema, hadjacent]
            rw [hadjacent] at hfirst
            exact (Finset.sum_Ico_consecutive _ (Nat.le_of_lt hfirst) (Nat.le_of_lt hsecond)).symm
          rw [List.map_cons, List.sum_cons, hjoined, List.map_cons, List.sum_cons]
          omega
    · rw [if_neg hcontinues] at h
      cases h
      exact hpush

/-- A query that needs every basket whole: no entry selection, no predicate, no filter. -/
structure PlanInput.Plain (input : PlanInput) : Prop where
  noSelection : input.entrySelectionActive = false
  noPredicates : input.hasPathPredicates = false
  noFilters : input.hasFilters = false
  noValueFilter : input.hasValueFilter = false

variable (hplain : input.Plain)

include hplain

/-- A row becomes one candidate task. -/
theorem planRow_values {state state' : PlanState} {row : BasketRow}
    (h : planRow input state row = .ok state') (hrow : row.task.InFile contents)
    (htasks : ∀ task ∈ state.tasks, task.InFile contents) :
    (∀ task ∈ state'.tasks, task.InFile contents) ∧
      (state'.tasks.map (taskValues count)).sum =
        (state.tasks.map (taskValues count)).sum + taskValues count row.task ∧
      state'.plannedValues.toNat = state.plannedValues.toNat + row.task.valueCount.toNat := by
  have hactive : input.intervalFilterActive = false := by
    unfold PlanInput.intervalFilterActive
    rw [hplain.noSelection, hplain.noPredicates]
    rfl
  have hbloom : countBloom input state row = state := by
    unfold countBloom
    cases row.bloom with
    | none => rfl
    | some bytes => exact if_neg (by rw [hplain.noValueFilter]; exact Bool.false_ne_true)
  have hpasses : passesBloom input row = true := by
    unfold passesBloom
    rw [hplain.noValueFilter]
    rfl
  have hcandidates : candidateTasks input row.task = [row.task] := by
    unfold candidateTasks
    rw [if_neg (by rw [hactive]; exact Bool.false_ne_true)]
  unfold planRow at h
  split at h
  next => cases h
  next =>
    rw [hbloom, hpasses, hcandidates] at h
    simp only [Bool.not_true, Bool.false_eq_true, if_false] at h
    cases hcounted : countBasket state row.task with
    | error e =>
      rw [hcounted] at h
      cases h
    | ok counted =>
      rw [hcounted] at h
      simp only [scheduleCandidates] at h
      unfold countBasket at hcounted
      split at hcounted
      next => cases hcounted
      next hfits =>
        cases hcounted
        cases hschedule : scheduleCandidate input state.tasks row.task with
        | error e =>
          rw [hschedule] at h
          cases h
        | ok tasks =>
          rw [hschedule] at h
          cases h
          obtain ⟨hfit, hsum⟩ := @scheduleCandidate_values count _ _ _ _ _ _ hschedule htasks hrow
          refine ⟨hfit, hsum, ?_⟩
          have hvalues : ¬ sumExceeds state.plannedValues row.task.valueCount = true := by
            intro hexceeds
            rw [hexceeds, Bool.or_true, Bool.true_or] at hfits
            exact hfits rfl
          unfold sumExceeds at hvalues
          rw [decide_eq_true_eq, toNat_uint64Max] at hvalues
          have hlt := state.plannedValues.toNat_lt
          exact toNat_add_of_lt (by omega)

/-- **The task loop**: the planned tasks hold the values of the rows that were fetched, and it
    stops early only behind the row limit. -/
theorem planRows_values {rows : List BasketRow}
    (hrows : ∀ row ∈ rows, row.task.InFile contents) :
    ∀ {state state' : PlanState} {fetched : List BasketRow},
      planRows input state rows = .ok (state', fetched) →
      (∀ task ∈ state.tasks, task.InFile contents) →
      fetched <+: rows ∧
        (fetched = rows ∨ input.rowLimit ≠ uint64Max ∧
          input.rowLimit.toNat ≤ state'.plannedValues.toNat) ∧
        (∀ task ∈ state'.tasks, task.InFile contents) ∧
        (state'.tasks.map (taskValues count)).sum = (state.tasks.map (taskValues count)).sum +
          (fetched.map fun row => taskValues count row.task).sum ∧
        state'.plannedValues.toNat = state.plannedValues.toNat +
          (fetched.map fun row => row.task.valueCount.toNat).sum := by
  induction rows with
  | nil =>
    intro state state' fetched h htasks
    cases h
    exact ⟨List.prefix_refl _, Or.inl rfl, htasks, rfl, rfl⟩
  | cons row rest ih =>
    intro state state' fetched h htasks
    obtain ⟨hrow, hrest⟩ := List.forall_mem_cons.mp hrows
    simp only [planRows] at h
    cases hstep : planRow input state row with
    | error e =>
      rw [hstep] at h
      cases h
    | ok between =>
      rw [hstep] at h
      obtain ⟨hbetween, hsum, hvalues⟩ := @planRow_values count _ _ _ hplain _ _ _ hstep hrow htasks
      dsimp only at h
      split at h
      next hstop =>
        cases h
        rw [Bool.and_eq_true, decide_eq_true_eq] at hstop
        refine ⟨⟨rest, rfl⟩, Or.inr ⟨?_, UInt64.le_iff_toNat_le.mp hstop.2⟩, hbetween, ?_, ?_⟩
        · intro hunlimited
          have hcan := hstop.1
          unfold PlanInput.canStopAfterRowLimit at hcan
          simp [hunlimited] at hcan
        · rw [List.map_singleton, List.sum_singleton]
          exact hsum
        · rw [List.map_singleton, List.sum_singleton]
          exact hvalues
      next =>
        cases hloop : planRows input between rest with
        | error e =>
          rw [hloop] at h
          cases h
        | ok result =>
          obtain ⟨last, more⟩ := result
          rw [hloop] at h
          cases h
          obtain ⟨hfetched, hall, htasks', hsum', hvalues'⟩ := ih hrest hloop hbetween
          refine ⟨(List.prefix_cons_inj row).mpr hfetched, hall.imp_left fun heq => by rw [heq],
            htasks', ?_, ?_⟩
          · rw [hsum', hsum, List.map_cons, List.sum_cons]
            omega
          · rw [hvalues', hvalues, List.map_cons, List.sum_cons]
            omega

end

/-! ### The rows of an index -/

section

variable {indexCount : Nat}

/-- The rows of a path: its file row and its basket rows. -/
def IndexedPath.rows (path : IndexedPath indexCount) :
    Except IOException (RootFileMetadataRow × List RootBasketMetadataRow) :=
  path.baskets.map fun baskets => (path.fileRow baskets, baskets.map path.basketRow)

/-- The rows of the files that were indexed, path by path. -/
def indexRows (paths : List (IndexedPath indexCount)) :
    Except IOException (List (RootFileMetadataRow × List RootBasketMetadataRow)) :=
  paths.mapM IndexedPath.rows

/-- The path was indexed from the files. -/
structure IndexedPath.IndexedFrom (contents : FileContents indexCount)
    (path : IndexedPath indexCount) : Prop where
  eventBase : path.eventBase = contents.eventBase path.rootUri
  totalEntries : path.totalEntries = contents.entries path.rootUri
  reads : ∀ entry : UInt64, entry.toNat < path.totalEntries.toNat →
    ∃ answer, path.numericEntry entry = .ok answer ∧
      handedOver answer = .ok (contents.values path.rootUri path.schemaId entry)

def DatasetSelection.selects (selection : DatasetSelection) (path : IndexedPath indexCount) : Bool :=
  selection.columnIds.contains path.columnId && selection.schemaIds.contains path.schemaId &&
    selection.inSnapshot path.snapshotId

/-- The values of the entries in the baskets of a path. -/
def IndexedPath.values (contents : FileContents indexCount) (path : IndexedPath indexCount) : Nat :=
  (path.ranges.map (rangeValues (contents.count path.rootUri path.schemaId))).sum

/-- The values of the selected paths. -/
def indexedValues (selection : DatasetSelection) (contents : FileContents indexCount)
    (paths : List (IndexedPath indexCount)) : Nat :=
  ((paths.filter selection.selects).map (IndexedPath.values contents)).sum

/-- What holds of the rows of a path. -/
structure DescribesPath (contents : FileContents indexCount) (path : IndexedPath indexCount)
    (rows : RootFileMetadataRow × List RootBasketMetadataRow) : Prop where
  valueCount : rows.1.valueCount.toNat = path.values contents
  sum : rows.1.valueCount.toNat = (rows.2.map fun basket => basket.valueCount.toNat).sum
  baskets : ∀ basket ∈ rows.2, (joinedRow basket rows.1).task.InFile contents ∧
    taskValues contents.count (joinedRow basket rows.1).task = basket.valueCount.toNat

/-- A sum of words that fits is the sum of their numbers. -/
theorem toNat_sum_of_lt {l : List UInt64} (h : (l.map UInt64.toNat).sum < 2 ^ 64) :
    l.sum.toNat = (l.map UInt64.toNat).sum := by
  induction l with
  | nil => rfl
  | cons a l ih =>
    rw [List.map_cons, List.sum_cons] at h
    have hrest := ih (by omega)
    rw [List.sum_cons, List.map_cons, List.sum_cons, toNat_add_of_lt (by omega), hrest]

theorem IndexedPath.rows_describe {contents : FileContents indexCount}
    {path : IndexedPath indexCount} (hpath : path.IndexedFrom contents)
    (hvalues : path.values contents < 2 ^ 64)
    {rows : RootFileMetadataRow × List RootBasketMetadataRow} (h : path.rows = .ok rows) :
    DescribesPath contents path rows := by
  have hread : ∀ entry : UInt64, entry.toNat < path.totalEntries.toNat →
      ReadsValues path.numericEntry entry
        (contents.count path.rootUri path.schemaId entry.toNat) := by
    intro entry hentry
    obtain ⟨answer, hanswer, hhanded⟩ := hpath.reads entry hentry
    refine ⟨answer, _, hanswer, hhanded, ?_⟩
    unfold FileContents.count
    rw [UInt64.ofNat_toNat]
  obtain ⟨baskets, hbaskets, hranges, hcounts⟩ := IndexedPath.baskets_spec hread
  unfold IndexedPath.rows at h
  rw [hbaskets] at h
  cases h
  have hsums : (baskets.map fun b => b.basket.valueCount).sum = path.values contents := by
    unfold IndexedPath.values
    rw [← hranges, List.map_map]
    exact congrArg List.sum (List.map_congr_left hcounts)
  have hfits : ∀ b ∈ baskets, b.basket.valueCount < 2 ^ 64 := by
    intro b hb
    have hle := List.single_le_sum (by simp) _ (List.mem_map_of_mem (f := fun b : IndexedBasket
      path.totalEntries => b.basket.valueCount) hb)
    omega
  have hwords : ∀ b ∈ baskets, (UInt64.ofNat b.basket.valueCount).toNat = b.basket.valueCount :=
    fun b hb => toNat_ofNat_of_lt (hfits b hb)
  have hmap : ((baskets.map fun b => UInt64.ofNat b.basket.valueCount).map UInt64.toNat) =
      baskets.map fun b => b.basket.valueCount := by
    rw [List.map_map]
    exact List.map_congr_left hwords
  have hcount : (path.fileRow baskets).valueCount.toNat = path.values contents := by
    unfold IndexedPath.fileRow
    dsimp only
    rw [toNat_sum_of_lt (by rw [hmap]; omega), hmap, hsums]
  refine ⟨hcount, ?_, ?_⟩
  · rw [hcount, ← hsums]
    dsimp only
    rw [List.map_map]
    exact (congrArg List.sum (List.map_congr_left hwords)).symm
  · intro row hrow
    obtain ⟨b, hb, rfl⟩ := List.mem_map.mp hrow
    refine ⟨⟨b.range.nonempty, hpath.eventBase, ?_⟩, ?_⟩
    · dsimp only [joinedRow, IndexedPath.fileRow, IndexedPath.basketRow]
      rw [← hpath.totalEntries]
      exact b.range.inFile
    · dsimp only [IndexedPath.basketRow]
      rw [hwords b hb, hcounts b hb]
      rfl

theorem indexRows_forall₂ {paths : List (IndexedPath indexCount)} :
    ∀ {built : List (RootFileMetadataRow × List RootBasketMetadataRow)},
      indexRows paths = .ok built → List.Forall₂ (fun path rows => path.rows = .ok rows) paths built := by
  induction paths with
  | nil =>
    intro built h
    cases h
    exact .nil
  | cons path paths ih =>
    intro built h
    unfold indexRows at h ih
    rw [List.mapM_cons] at h
    cases hrows : path.rows with
    | error e =>
      rw [hrows] at h
      cases h
    | ok rows =>
      rw [hrows] at h
      cases hrest : paths.mapM IndexedPath.rows with
      | error e =>
        rw [hrest] at h
        cases h
      | ok rest =>
        rw [hrest] at h
        cases h
        exact .cons hrows (ih hrest)

/-- The rows of a path carry its ids. -/
theorem IndexedPath.rows_ids {path : IndexedPath indexCount}
    {rows : RootFileMetadataRow × List RootBasketMetadataRow} (h : path.rows = .ok rows) :
    (rows.1.fileId = path.fileId ∧ rows.1.columnId = path.columnId ∧
        rows.1.schemaId = path.schemaId ∧ rows.1.snapshotId = path.snapshotId) ∧
      ∀ basket ∈ rows.2, basket.fileId = path.fileId ∧ basket.columnId = path.columnId ∧
        basket.snapshotId = path.snapshotId := by
  unfold IndexedPath.rows at h
  cases hbaskets : path.baskets with
  | error e =>
    rw [hbaskets] at h
    cases h
  | ok baskets =>
    rw [hbaskets] at h
    cases h
    refine ⟨⟨rfl, rfl, rfl, rfl⟩, fun row hrow => ?_⟩
    obtain ⟨b, -, rfl⟩ := List.mem_map.mp hrow
    exact ⟨rfl, rfl, rfl⟩

/-- An element with a key of its own is the only one a filter on that key can keep. -/
theorem filter_of_key {α β : Type} {key : α → β} {l : List α} (hkeys : (l.map key).Nodup) {a : α}
    (ha : a ∈ l) {p : α → Bool} (hp : ∀ b, p b = true → key b = key a) :
    l.filter p = if p a = true then [a] else [] := by
  induction l with
  | nil => cases ha
  | cons b l ih =>
    obtain ⟨hfresh, hrest⟩ := List.nodup_cons.mp hkeys
    rcases List.mem_cons.mp ha with rfl | hmem
    · have hnone : l.filter p = [] := by
        rw [List.filter_eq_nil_iff]
        intro c hc hpc
        exact hfresh (List.mem_map.mpr ⟨c, hc, hp c hpc⟩)
      rw [List.filter_cons, hnone]
    · have hother : ¬ p b = true := by
        intro hpb
        exact hfresh (List.mem_map.mpr ⟨a, hmem, (hp b hpb).symm⟩)
      rw [List.filter_cons_of_neg hother]
      exact ih hrest hmem

theorem flatMap_filter {α β : Type} (p : α → Bool) (f : α → List β) (l : List α) :
    (l.filter p).flatMap f = l.flatMap fun a => if p a = true then f a else [] := by
  induction l with
  | nil => rfl
  | cons a l ih =>
    rw [List.flatMap_cons, ← ih]
    by_cases hp : p a = true
    · rw [List.filter_cons_of_pos hp, if_pos hp, List.flatMap_cons]
    · rw [List.filter_cons_of_neg hp, if_neg hp, List.nil_append]

/-- **The join**: every basket of a selected path meets the file row of that path, and no
    other. -/
theorem basketQuery_eq (selection : DatasetSelection) {paths : List (IndexedPath indexCount)}
    {built : List (RootFileMetadataRow × List RootBasketMetadataRow)}
    (hbuilt : indexRows paths = .ok built)
    (hkeys : (paths.map fun path => (path.fileId, path.columnId)).Nodup) :
    basketQuery selection (built.map Prod.fst) (built.flatMap Prod.snd) =
      (built.filter fun rows => selection.selectsFile rows.1).flatMap fun rows =>
        rows.2.map fun basket => joinedRow basket rows.1 := by
  have hforall := indexRows_forall₂ hbuilt
  have hkeysOf : (built.map Prod.fst).map (fun file => (file.fileId, file.columnId)) =
      paths.map fun path => (path.fileId, path.columnId) := by
    clear hbuilt hkeys
    induction hforall with
    | nil => rfl
    | cons hrows hrest ih =>
      obtain ⟨⟨hfile, hcolumn, -⟩, -⟩ := IndexedPath.rows_ids hrows
      simp only [List.map_cons, ih, hfile, hcolumn]
  rw [← hkeysOf] at hkeys
  have hids : ∀ rows ∈ built, ∀ basket ∈ rows.2, basket.fileId = rows.1.fileId ∧
      basket.columnId = rows.1.columnId ∧ basket.snapshotId = rows.1.snapshotId := by
    intro rows hrows basket hbasket
    obtain ⟨path, -, hpath⟩ : ∃ path ∈ paths, path.rows = .ok rows := by
      clear hbuilt hkeys hkeysOf hbasket
      induction hforall with
      | nil => cases hrows
      | cons hfirst hrest ih =>
        rcases List.mem_cons.mp hrows with rfl | hmem
        · exact ⟨_, List.mem_cons_self, hfirst⟩
        · obtain ⟨path, hin, hpath⟩ := ih hmem
          exact ⟨path, List.mem_cons_of_mem _ hin, hpath⟩
    obtain ⟨⟨hfile, hcolumn, -, hsnapshot⟩, hbaskets⟩ := IndexedPath.rows_ids hpath
    obtain ⟨hfile', hcolumn', hsnapshot'⟩ := hbaskets basket hbasket
    exact ⟨hfile'.trans hfile.symm, hcolumn'.trans hcolumn.symm, hsnapshot'.trans hsnapshot.symm⟩
  unfold basketQuery
  rw [List.flatMap_assoc, flatMap_filter]
  refine List.flatMap_congr fun rows hrows => ?_
  have hjoin : ∀ basket ∈ rows.2,
      ((built.map Prod.fst).filter (selection.selectsBasket basket)).map (joinedRow basket) =
        if selection.selectsFile rows.1 = true then [joinedRow basket rows.1] else [] := by
    intro basket hbasket
    obtain ⟨hfile, hcolumn, hsnapshot⟩ := hids rows hrows basket hbasket
    have hsame : selection.selectsBasket basket rows.1 = selection.selectsFile rows.1 := by
      unfold DatasetSelection.selectsBasket DatasetSelection.selectsFile
      rw [hfile, hcolumn, hsnapshot]
      simp only [beq_self_eq_true, Bool.true_and, Bool.and_assoc, Bool.and_self]
    rw [filter_of_key hkeys (List.mem_map_of_mem hrows), hsame]
    · split <;> rfl
    · intro file hfile'
      unfold DatasetSelection.selectsBasket at hfile'
      simp only [Bool.and_eq_true, beq_iff_eq] at hfile'
      rw [hfile'.1.1.1.1.1, hfile'.1.1.1.1.2, hfile, hcolumn]
  rw [List.flatMap_congr hjoin]
  by_cases hselected : selection.selectsFile rows.1 = true
  · simp only [hselected, if_true]
    exact List.map_eq_flatMap.symm
  · simp [hselected]

/-- **Both queries count the indexed values.** -/
theorem queries_count (selection : DatasetSelection) {contents : FileContents indexCount}
    {paths : List (IndexedPath indexCount)}
    {built : List (RootFileMetadataRow × List RootBasketMetadataRow)}
    (hbuilt : indexRows paths = .ok built)
    (hkeys : (paths.map fun path => (path.fileId, path.columnId)).Nodup)
    (hpaths : ∀ path ∈ paths, selection.selects path = true → path.IndexedFrom contents)
    (hcount : indexedValues selection contents paths < 2 ^ 64) :
    planMetadataCount selection (built.map Prod.fst) =
        .ok (UInt64.ofNat (indexedValues selection contents paths)) ∧
      (∀ row ∈ basketQuery selection (built.map Prod.fst) (built.flatMap Prod.snd),
        row.task.InFile contents ∧
          taskValues contents.count row.task = row.task.valueCount.toNat) ∧
      ((basketQuery selection (built.map Prod.fst) (built.flatMap Prod.snd)).map
        fun row => row.task.valueCount.toNat).sum = indexedValues selection contents paths := by
  have hselected : ∀ {path : IndexedPath indexCount}
      {rows : RootFileMetadataRow × List RootBasketMetadataRow}, path.rows = .ok rows →
        selection.selectsFile rows.1 = selection.selects path := by
    intro path rows hrows
    obtain ⟨⟨-, hcolumn, hschema, hsnapshot⟩, -⟩ := IndexedPath.rows_ids hrows
    unfold DatasetSelection.selectsFile DatasetSelection.selects
    rw [hcolumn, hschema, hsnapshot]
  have hvalues : ∀ path ∈ paths, selection.selects path = true →
      path.values contents < 2 ^ 64 := by
    intro path hpath hsel
    have hle := List.single_le_sum (by simp) _ (List.mem_map_of_mem
      (f := IndexedPath.values contents) (List.mem_filter.mpr ⟨hpath, hsel⟩))
    unfold indexedValues at hcount
    omega
  -- The selected rows, path by path.
  have hdescribed : List.Forall₂ (DescribesPath contents) (paths.filter selection.selects)
      (built.filter fun rows => selection.selectsFile rows.1) := by
    have hforall := indexRows_forall₂ hbuilt
    clear hbuilt hkeys hcount
    induction hforall with
    | nil => exact .nil
    | @cons path rows paths built hrows hrest ih =>
      have hrest' := ih (fun p hp => hpaths p (List.mem_cons_of_mem _ hp))
        (fun p hp => hvalues p (List.mem_cons_of_mem _ hp))
      by_cases hsel : selection.selects path = true
      · rw [List.filter_cons_of_pos hsel,
          List.filter_cons_of_pos (by rw [hselected hrows]; exact hsel)]
        exact .cons (IndexedPath.rows_describe (hpaths path List.mem_cons_self hsel)
          (hvalues path List.mem_cons_self hsel) hrows) hrest'
      · rw [List.filter_cons_of_neg hsel,
          List.filter_cons_of_neg (by rw [hselected hrows]; exact hsel)]
        exact hrest'
  rw [basketQuery_eq selection hbuilt hkeys]
  have hfiles : (built.map Prod.fst).filter selection.selectsFile =
      (built.filter fun rows => selection.selectsFile rows.1).map Prod.fst := by
    rw [List.filter_map]
    rfl
  unfold planMetadataCount
  rw [hfiles]
  unfold indexedValues at hcount ⊢
  generalize built.filter (fun rows => selection.selectsFile rows.1) = selectedRows at hdescribed ⊢
  generalize paths.filter selection.selects = selectedPaths at hdescribed hcount ⊢
  have hfileSum : ((selectedRows.map Prod.fst).map fun file => file.valueCount.toNat).sum =
      (selectedPaths.map (IndexedPath.values contents)).sum := by
    clear hcount hfiles
    induction hdescribed with
    | nil => rfl
    | cons hrows hrest ih => simp only [List.map_cons, List.sum_cons, ih, hrows.valueCount]
  refine ⟨?_, ?_, ?_⟩
  · dsimp only
    rw [hfileSum, if_pos hcount]
  · clear hcount hfileSum hfiles
    induction hdescribed with
    | nil =>
      intro row hrow
      cases hrow
    | cons hrows hrest ih =>
      intro row hrow
      rw [List.flatMap_cons] at hrow
      rcases List.mem_append.mp hrow with hfirst | hlater
      · obtain ⟨basket, hbasket, rfl⟩ := List.mem_map.mp hfirst
        exact hrows.baskets basket hbasket
      · exact ih row hlater
  · rw [← hfileSum]
    clear hcount hfileSum hfiles
    induction hdescribed with
    | nil => rfl
    | cons hrows hrest ih =>
      rw [List.flatMap_cons, List.map_append, List.sum_append, ih, List.map_map]
      simp only [List.map_cons, List.sum_cons]
      rw [hrows.sum]
      rfl

end

/-! ### The rows of the scan -/

section

variable {Filter : Type} (env : ScanEnvironment Filter)

/-- A scan of the files without filters and without ranges. -/
structure ScanEnvironment.Reads (contents : FileContents env.indexCount) : Prop where
  noEntryFilters : env.entryFilters = []
  noElementFilters : env.elementFilters = []
  noPredicates : env.bind.pathPredicates = []
  noEventRange : env.global.hasEventRange = false
  noEntryRange : env.global.localEntryRange.known = false
  opens : ∀ task, 0 < (contents.entries task.rootUri).toNat → env.openRootFile task = .ok ()
  reads : ∀ task entry, entry.toNat < (contents.entries task.rootUri).toNat →
    ∃ answer, env.numericEntry task entry = .ok answer ∧
      handedOver answer = .ok (contents.values task.rootUri task.schemaId entry)

variable {env} {contents : FileContents env.indexCount} (henv : env.Reads contents)

include henv

/-- An entry of a task is decoded to its values. -/
theorem decodedRows_length {task : RootBasketTask} (htask : task.InFile contents) {entry : UInt64}
    (hentry : entry.toNat < task.entryEnd.toNat) :
    ∃ rows, decodedRows env task entry = .ok rows ∧
      rows.length = contents.count task.rootUri task.schemaId entry.toNat := by
  have hkeys := contents.keysFit task.rootUri
  have hinFile := htask.inFile
  have hevent : eventFkExceedsRange task entry = false := by
    unfold eventFkExceedsRange
    rw [decide_eq_false_iff_not, htask.eventBase, toNat_uint64Max]
    omega
  have hentryFilters : passesDatasetEntryFilters env.evaluate env.bind env.entryFilters task entry =
      true := by
    rw [henv.noEntryFilters]
    rfl
  have hpredicates : passesPathPredicates env task entry = .ok true := by
    unfold passesPathPredicates
    rw [henv.noPredicates]
    rfl
  obtain ⟨answer, hanswer, hhanded⟩ := henv.reads task entry (by omega)
  have hbegin : entryAnswer env task entry = .ok (some answer) := by
    unfold entryAnswer beginEntry
    rw [if_neg (by rw [hevent]; exact Bool.false_ne_true),
      if_neg (by rw [hentryFilters]; exact Bool.false_ne_true), hpredicates]
    simp only [bind, Except.bind, Bool.not_true, Bool.false_eq_true, if_false, hanswer]
    rfl
  have hlength : (contents.values task.rootUri task.schemaId entry).length =
      contents.count task.rootUri task.schemaId entry.toNat := by
    unfold FileContents.count
    rw [UInt64.ofNat_toNat]
  unfold decodedRows
  dsimp only
  rw [hbegin]
  generalize contents.values task.rootUri task.schemaId entry = values at hhanded hlength
  cases answer with
  | none leftover =>
    cases hhanded
    exact ⟨[], rfl, hlength⟩
  | serializedValues delivered =>
    cases hhanded
    exact ⟨_, rfl, by rw [List.length_map, hlength]⟩
  | paged pages =>
    unfold handedOver at hhanded
    dsimp only at hhanded ⊢
    cases hafter : pages.after with
    | failed e =>
      rw [hafter] at hhanded
      cases hhanded
    | closed =>
      rw [hafter] at hhanded
      refine ⟨_, rfl, ?_⟩
      rw [List.length_map, Except.ok.inj hhanded, hlength]
    | pending =>
      rw [hafter] at hhanded
      refine ⟨_, rfl, ?_⟩
      rw [List.length_map, Except.ok.inj hhanded, hlength]

omit henv in
theorem sum_entries (task : RootBasketTask) (count : Nat → Nat) :
    (task.entries.map fun entry => count entry.toNat).sum =
      ∑ e ∈ Finset.Ico task.entryBegin.toNat task.entryEnd.toNat, count e := by
  have hlt := task.entryEnd.toNat_lt
  unfold RootBasketTask.entries
  rw [List.map_map]
  have hmap : (List.range' task.entryBegin.toNat
        (task.entryEnd.toNat - task.entryBegin.toNat)).map
      ((fun entry => count entry.toNat) ∘ UInt64.ofNat) =
      (List.range' task.entryBegin.toNat
        (task.entryEnd.toNat - task.entryBegin.toNat)).map count := by
    refine List.map_congr_left fun e he => ?_
    have hbounds := List.mem_range'_1.mp he
    dsimp only [Function.comp_apply]
    rw [toNat_ofNat_of_lt (by omega)]
  rw [hmap]
  exact (Multiset.sum_coe _).symm

omit henv in
/-- Entries that decode come to as many rows as they have. -/
theorem mapM_length {decode : UInt64 → Except IOException (List DatasetRow)}
    {count : UInt64 → Nat} (entries : List UInt64)
    (h : ∀ entry ∈ entries, ∃ rows, decode entry = .ok rows ∧ rows.length = count entry) :
    ∃ rows, entries.mapM decode = .ok rows ∧ rows.flatten.length = (entries.map count).sum := by
  induction entries with
  | nil => exact ⟨[], rfl, rfl⟩
  | cons entry entries ih =>
    obtain ⟨hentry, hrest⟩ := List.forall_mem_cons.mp h
    obtain ⟨rows, hrows, hlength⟩ := hentry
    obtain ⟨more, hmore, hlengths⟩ := ih hrest
    refine ⟨rows :: more, ?_, ?_⟩
    · rw [List.mapM_cons, hrows]
      simp only [bind, Except.bind, hmore]
      rfl
    · rw [List.flatten_cons, List.length_append, hlength, hlengths, List.map_cons, List.sum_cons]

/-- **What a worker owes**: one row for each value of its tasks. -/
theorem expectedRows_length :
    ∀ (tasks : List RootBasketTask) (openFile : Option (String × String)),
      (∀ task ∈ tasks, task.InFile contents) →
      ∃ rows, expectedRows env openFile tasks = .ok rows ∧
        rows.length = (tasks.map (taskValues contents.count)).sum := by
  intro tasks
  induction tasks with
  | nil => exact fun _ _ => ⟨[], rfl, rfl⟩
  | cons task tasks ih =>
    intro openFile htasks
    obtain ⟨htask, hrest⟩ := List.forall_mem_cons.mp htasks
    have hopen : ensureFile env openFile task = .ok () := by
      unfold ensureFile
      split
      next => rfl
      next =>
        have hnonempty := htask.nonempty
        have hinFile := htask.inFile
        exact henv.opens task (by omega)
    obtain ⟨rows, hrows, hlength⟩ := @mapM_length (decodedRows env task)
      (fun entry => contents.count task.rootUri task.schemaId entry.toNat) task.entries (by
        intro entry hentry
        unfold RootBasketTask.entries at hentry
        obtain ⟨e, he, rfl⟩ := List.mem_map.mp hentry
        have hbounds := List.mem_range'_1.mp he
        have hlt := task.entryEnd.toNat_lt
        have hnonempty := htask.nonempty
        exact decodedRows_length henv htask (by rw [toNat_ofNat_of_lt (by omega)]; omega))
    obtain ⟨more, hmore, hlengths⟩ := ih (taskFile task) hrest
    have hall : ∀ row, passesFilters env.evaluate env.bind env.elementFilters row = true := by
      intro row
      rw [henv.noElementFilters]
      rfl
    refine ⟨outputRows env rows.flatten ++ more, ?_, ?_⟩
    · unfold expectedRows
      rw [hopen]
      simp only [bind, Except.bind, hrows, hmore]
      rfl
    · unfold outputRows
      rw [List.length_append, List.length_map, List.filter_eq_self.mpr (fun row _ => hall row),
        hlength, hlengths, sum_entries, List.map_cons, List.sum_cons]
      rfl

/-- The events of a worker raise nothing, and hold the rows it owes and those it repeats. -/
theorem taskEvents_length {tasks : List RootBasketTask}
    (htasks : ∀ task ∈ tasks, task.InFile contents) :
    Quiet (taskEvents env none {} tasks) ∧
      (rowsOf (taskEvents env none {} tasks)).length =
        (tasks.map (taskValues contents.count)).sum + repeatedRows env {} tasks := by
  obtain ⟨rows, hrows, hlength⟩ := expectedRows_length henv tasks none htasks
  have hcompared := @taskEvents_compared _ env tasks none {}
  rw [hrows] at hcompared
  have hquiet : Quiet (taskEvents env none {} tasks) := by
    by_contra hnot
    obtain ⟨e, he⟩ := outcome_error_of_not_quiet hnot
    rw [he] at hcompared
    cases hcompared
  refine ⟨hquiet, ?_⟩
  rw [outcome_of_quiet hquiet] at hcompared
  cases hcompared with
  | rows hmore _ => rw [hmore, hlength]

/-- Without ranges the groups are handed out as they were planned. -/
theorem groupTasks_plain (groups : List RootFileTaskGroup) :
    groupTasks env groups =
      groups.flatMap fun group => (TaskCursor.enter group).remaining env.global := by
  have hclip : ∀ task, (clipTask env.global task).1 = some task := by
    intro task
    unfold clipTask clipToEventRange clipToEntryRange
    simp [henv.noEventRange, henv.noEntryRange]
  have hstart : ({} : TaskCursor).remaining env.global = [] := rfl
  unfold groupTasks claimedTasks remainingTasks
  dsimp only
  rw [hstart, List.nil_append]
  simp only [hclip]
  exact List.filterMap_some

/-! ### The two numbers -/

section

variable {W : Type} [Fintype W] {assign : W → List RootFileTaskGroup}

omit henv in
/-- The workers' shares of the groups add up. -/
theorem sum_assign {groups : List RootFileTaskGroup}
    (hassign : ∑ w, (assign w : Multiset RootFileTaskGroup) = groups)
    (weight : RootFileTaskGroup → Nat) :
    ∑ w, ((assign w).map weight).sum = (groups.map weight).sum := by
  have hsum := congrArg (fun m : Multiset RootFileTaskGroup => (m.map weight).sum) hassign
  have hmap := map_sum (Multiset.sumAddMonoidHom.comp (Multiset.mapAddMonoidHom weight))
    (fun w => (assign w : Multiset RootFileTaskGroup)) Finset.univ
  have hcoe : ∀ l : List RootFileTaskGroup,
      ((l : Multiset RootFileTaskGroup).map weight).sum = (l.map weight).sum := by
    intro l
    rw [Multiset.map_coe, Multiset.sum_coe]
  rw [← hcoe groups]
  refine Eq.trans ?_ hsum
  refine Eq.trans ?_ hmap.symm
  exact Finset.sum_congr rfl fun w _ => (hcoe (assign w)).symm

/-- What the workers owe is what the planned tasks hold. -/
theorem sum_groupTasks
    (hassign : ∑ w, (assign w : Multiset RootFileTaskGroup) = env.global.taskGroups)
    (hgroups : env.global.taskGroups.flatMap
      (fun group => (TaskCursor.enter group).remaining env.global) = env.global.tasks) :
    ∑ w, ((groupTasks env (assign w)).map (taskValues contents.count)).sum =
        (env.global.tasks.map (taskValues contents.count)).sum ∧
      ∀ w, ∀ task ∈ groupTasks env (assign w), task ∈ env.global.tasks := by
  have hflat : ∀ groups : List RootFileTaskGroup,
      ((groups.flatMap fun group => (TaskCursor.enter group).remaining env.global).map
        (taskValues contents.count)).sum =
        (groups.map fun group => (((TaskCursor.enter group).remaining env.global).map
          (taskValues contents.count)).sum).sum := by
    intro groups
    induction groups with
    | nil => rfl
    | cons group groups ih =>
      rw [List.flatMap_cons, List.map_append, List.sum_append, ih, List.map_cons, List.sum_cons]
  constructor
  · rw [← hgroups, hflat, ← sum_assign hassign]
    exact Finset.sum_congr rfl fun w _ => by rw [groupTasks_plain henv, hflat]
  · intro w task htask
    rw [groupTasks_plain henv] at htask
    obtain ⟨group, hgroup, hmem⟩ := List.mem_flatMap.mp htask
    have hin : group ∈ ∑ w, (assign w : Multiset RootFileTaskGroup) :=
      Multiset.mem_sum.mpr ⟨w, Finset.mem_univ w, hgroup⟩
    rw [hassign] at hin
    rw [← hgroups]
    exact List.mem_flatMap.mpr ⟨group, hin, hmem⟩

omit henv in
/-- The scan emits one number of rows only. -/
theorem ScanEmits.unique [DecidableEq W] {first second : Nat} (hfirst : ScanEmits env assign first)
    (hsecond : ScanEmits env assign second) : first = second := by
  obtain ⟨b₁, h₁⟩ := hfirst
  obtain ⟨b₂, h₂⟩ := hsecond
  let schedule : List W :=
    Finset.univ.toList.flatMap fun w => List.replicate (b₁ + b₂ + 1) w
  have hcount : ∀ w, b₁ + b₂ < schedule.count w := by
    intro w
    have hsub : (List.replicate (b₁ + b₂ + 1) w).Sublist schedule :=
      List.sublist_flatten_of_mem (List.mem_map_of_mem (Finset.mem_toList.mpr (Finset.mem_univ w)))
    have hle := hsub.count_le w
    rw [List.count_replicate_self] at hle
    omega
  obtain ⟨team₁, hrun₁, hrows₁⟩ := h₁ schedule fun w => by have := hcount w; omega
  obtain ⟨team₂, hrun₂, hrows₂⟩ := h₂ schedule fun w => by have := hcount w; omega
  rw [hrun₁] at hrun₂
  cases hrun₂
  exact hrows₁.symm.trans hrows₂

omit henv in
theorem MetadataEmits.unique {global : DatasetGlobalState} {total size : UInt64}
    {first second : Nat} (hfirst : MetadataEmits global total size first)
    (hsecond : MetadataEmits global total size second) : first = second := by
  obtain ⟨b₁, h₁⟩ := hfirst
  obtain ⟨b₂, h₂⟩ := hsecond
  rw [← h₁ (b₁ + b₂ + 1) (by omega), ← h₂ (b₁ + b₂ + 1) (by omega)]

end

end

/-- **COUNT(\*) from the metadata is the number of rows of the scan** just when the row limit does
    not exceed the indexed values, or no worker repeats a page. -/
theorem metadata_count_eq_scan_iff {Filter W : Type} [Fintype W] [DecidableEq W]
    (env : ScanEnvironment Filter) (selection : DatasetSelection)
    {paths : List (IndexedPath env.indexCount)} {contents : FileContents env.indexCount}
    {built : List (RootFileMetadataRow × List RootBasketMetadataRow)}
    (hbuilt : indexRows paths = .ok built)
    (hkeys : (paths.map fun path => (path.fileId, path.columnId)).Nodup)
    (hpaths : ∀ path ∈ paths, selection.selects path = true → path.IndexedFrom contents)
    (hcount : indexedValues selection contents paths < 2 ^ 64)
    {input : PlanInput} (hplain : input.Plain) (hlimit : input.rowLimit = env.global.rowLimit)
    {rows fetched : List BasketRow} {state : PlanState}
    (hrows : rows.Perm
      (basketQuery selection (built.map Prod.fst) (built.flatMap Prod.snd)))
    (hplan : plan input rows = .ok (env.global, state, fetched))
    (henv : env.Reads contents) (assign : W → List RootFileTaskGroup)
    (hassign : ∑ w, (assign w : Multiset RootFileTaskGroup) = env.global.taskGroups)
    (standardVectorSize : UInt64) (hsize : standardVectorSize ≠ 0) :
    (∃ total emitted, planMetadataCount selection (built.map Prod.fst) = .ok total ∧
        MetadataEmits env.global total standardVectorSize emitted ∧
        ScanEmits env assign emitted) ↔
      (∃ most, rowBudget env.global.rowLimit = some most ∧
          most ≤ indexedValues selection contents paths) ∨
        env.typedTransport = false ∨
        ∀ w, CleanHandovers env {} (groupTasks env (assign w)) := by
  obtain ⟨htotal, hqueried, hsum⟩ := queries_count selection hbuilt hkeys hpaths hcount
  have hfit : ∀ row ∈ rows, row.task.InFile contents :=
    fun row hrow => (hqueried row (hrows.subset hrow)).1
  -- The plan: its tasks, its groups, and how far it went.
  obtain ⟨hgroups, htasks, hheld, hstopped⟩ :
      env.global.taskGroups.flatMap
          (fun group => (TaskCursor.enter group).remaining env.global) = env.global.tasks ∧
        (∀ task ∈ env.global.tasks, task.InFile contents) ∧
        (env.global.tasks.map (taskValues contents.count)).sum ≤
          indexedValues selection contents paths ∧
        ((env.global.tasks.map (taskValues contents.count)).sum =
            indexedValues selection contents paths ∨
          input.rowLimit ≠ uint64Max ∧
            input.rowLimit.toNat ≤ (env.global.tasks.map (taskValues contents.count)).sum) := by
    unfold plan at hplan
    cases hloop : planRows input {} rows with
    | error e =>
      rw [hloop] at hplan
      cases hplan
    | ok result =>
      obtain ⟨last, more⟩ := result
      rw [hloop] at hplan
      obtain ⟨hfetched, hall, hfits, hvalues, hplanned⟩ :=
        @planRows_values contents.count _ _ _ hplain _ hfit _ _ _ hloop
          (fun task htask => by cases htask)
      simp only [Except.ok.injEq, Prod.mk.injEq] at hplan
      obtain ⟨hglobal, rfl, rfl⟩ := hplan
      have htasksEq : env.global.tasks = last.tasks.reverse := by rw [← hglobal]
      have hgroupsEq : env.global.taskGroups = buildFileTaskGroups input env.global.tasks := by
        rw [← hglobal]
      have hreverse : (env.global.tasks.map (taskValues contents.count)).sum =
          (last.tasks.map (taskValues contents.count)).sum := by
        rw [htasksEq, List.map_reverse, List.sum_reverse]
      have hsame : (more.map fun row => taskValues contents.count row.task).sum =
          (more.map fun row => row.task.valueCount.toNat).sum :=
        congrArg List.sum (List.map_congr_left fun row hrow =>
          (hqueried row (hrows.subset (hfetched.subset hrow))).2)
      have hzero : ({} : PlanState).plannedValues.toNat = 0 := rfl
      have hempty : (({} : PlanState).tasks.map (taskValues contents.count)).sum = 0 := rfl
      have hrowsSum : (rows.map fun row => row.task.valueCount.toNat).sum =
          indexedValues selection contents paths := by
        rw [← hsum]
        exact (hrows.map _).sum_eq
      have hle : (more.map fun row => row.task.valueCount.toNat).sum ≤
          (rows.map fun row => row.task.valueCount.toNat).sum :=
        (hfetched.sublist.map _).sum_le_sum (by simp)
      refine ⟨flatMap_enter_remaining input env.global hgroupsEq, ?_, by omega, ?_⟩
      · intro task htask
        rw [htasksEq] at htask
        exact hfits task (List.mem_reverse.mp htask)
      · rcases hall with hall | ⟨hlimited, hreached⟩
        · left
          rw [← hall] at hrowsSum
          omega
        · exact Or.inr ⟨hlimited, by omega⟩
  -- What the workers emit.
  obtain ⟨hshare, hmember⟩ := @sum_groupTasks _ env contents henv _ _ _ hassign hgroups
  have hevents := fun w => @taskEvents_length _ env contents henv (groupTasks env (assign w))
    fun task htask => htasks task (hmember w task htask)
  have hemits := scan_emits env assign fun w => (hevents w).1
  have hrowsOf : ∑ w, (rowsOf (taskEvents env none {} (groupTasks env (assign w)))).length =
      (env.global.tasks.map (taskValues contents.count)).sum +
        ∑ w, repeatedRows env {} (groupTasks env (assign w)) := by
    rw [← hshare, ← Finset.sum_add_distrib]
    exact Finset.sum_congr rfl fun w _ => (hevents w).2
  rw [hrowsOf] at hemits
  have hmetadata := @metadataScan_emits env.global
    (UInt64.ofNat (indexedValues selection contents paths)) standardVectorSize hsize
  rw [toNat_ofNat_of_lt hcount] at hmetadata
  have hsplit : (∃ total emitted, planMetadataCount selection (built.map Prod.fst) = .ok total ∧
      MetadataEmits env.global total standardVectorSize emitted ∧ ScanEmits env assign emitted) ↔
        allowed (rowBudget env.global.rowLimit) (indexedValues selection contents paths) =
          allowed (rowBudget env.global.rowLimit)
            ((env.global.tasks.map (taskValues contents.count)).sum +
              ∑ w, repeatedRows env {} (groupTasks env (assign w))) := by
    constructor
    · rintro ⟨total, emitted, hplanned, hcounted, hscanned⟩
      rw [htotal] at hplanned
      cases hplanned
      rw [← hcounted.unique hmetadata]
      exact hscanned.unique hemits
    · intro hequal
      refine ⟨_, _, htotal, hmetadata, ?_⟩
      rw [hequal]
      exact hemits
  have hrepeats : ∑ w, repeatedRows env {} (groupTasks env (assign w)) = 0 ↔
      env.typedTransport = false ∨ ∀ w, CleanHandovers env {} (groupTasks env (assign w)) := by
    rw [Finset.sum_eq_zero_iff]
    simp only [Finset.mem_univ, true_implies]
    cases htyped : env.typedTransport with
    | false => exact ⟨fun _ => Or.inl rfl, fun _ w => repeatedRows_double htyped _ _⟩
    | true =>
      simp only [Bool.true_eq_false, false_or]
      exact forall_congr' fun w => repeatedRows_eq_zero_iff htyped _ _
  rw [hsplit, ← hrepeats]
  generalize ∑ w, repeatedRows env {} (groupTasks env (assign w)) = repeated
  rw [hlimit] at hstopped
  unfold allowed rowBudget
  by_cases hunlimited : env.global.rowLimit = uint64Max
  · rw [if_pos hunlimited]
    have hexact := hstopped.resolve_right fun h => h.1 hunlimited
    simp only [reduceCtorEq, false_and, exists_false, false_or]
    omega
  · rw [if_neg hunlimited]
    simp only [Option.some.injEq, exists_eq_left']
    rcases hstopped with hexact | ⟨-, hreached⟩ <;> omega

/-! ### One file -/

/-- A file of two entries in two baskets; the first entry has one value, the second none. -/
def oneValue (entry : UInt64) : List (DecodedValue 0) :=
  if entry = 0 then [{ value := .signed 7, indices := [], complete := List.length_nil }] else []

def oneValuePath : IndexedPath 0 where
  snapshotId := "s"
  fileId := "f"
  rootUri := "f.root"
  treeName := "Events"
  schemaId := "schema"
  columnId := "column"
  eventBase := 0
  totalEntries := 2
  basketEntries := [0, 1]
  ordered := by decide
  physicalOffset range := range.entryBegin * 0x100000
  compressedSize _ := 1
  statisticsDoubleSafe := false
  bloom := freshBloom 0 ⟨fun _ => 0, fun _ _ => 0, 0⟩
  numericEntry entry := .ok (.serializedValues (oneValue entry))

def oneValueContents : FileContents 0 where
  eventBase _ := 0
  entries _ := 2
  values _ _ := oneValue
  keysFit _ := by decide

def oneValueSelection : DatasetSelection where
  schemas := [("column", "schema")]

/-- The two rows of the path. -/
def oneValueRows : RootFileMetadataRow × List RootBasketMetadataRow :=
  ({ snapshotId := "s", fileId := "f", rootUri := "f.root", treeName := "Events",
     schemaId := "schema", columnId := "column", eventBase := 0, totalEntries := 2,
     valueCount := 1, basketCount := 2 },
   [{ snapshotId := "s", fileId := "f", columnId := "column", entryBegin := 0, entryEnd := 1,
      valueCount := 1, physicalOffset := 0, compressedSize := 1 },
    { snapshotId := "s", fileId := "f", columnId := "column", entryBegin := 1, entryEnd := 2,
      valueCount := 0, physicalOffset := 0x100000, compressedSize := 1 }])

/-- The scan of the planned tasks. -/
def oneValueEnvironment (valueType : LogicalTypeId) : ScanEnvironment Unit where
  bind := { valueType := valueType }
  global :=
    { tasks := oneValueRows.2.map fun basket => (joinedRow basket oneValueRows.1).task
      taskGroups := [⟨0, 2, 0, Nat.two_pos⟩] }
  outputColumnIds := [.column 1]
  standardVectorSize := 2048
  evaluate := fun _ _ => true
  openRootFile := fun _ => .ok ()
  numericEntry := fun _ entry => .ok (.serializedValues (oneValue entry))
  predicateValues := fun _ _ _ => none

theorem oneValue_built : indexRows [oneValuePath] = .ok [oneValueRows] := by
  rfl

theorem oneValue_planned (valueType : LogicalTypeId) :
    ∃ state, plan {} (oneValueRows.2.map fun basket => joinedRow basket oneValueRows.1) =
      .ok ((oneValueEnvironment valueType).global, state,
        oneValueRows.2.map fun basket => joinedRow basket oneValueRows.1) :=
  ⟨_, rfl⟩

theorem oneValue_reads (valueType : LogicalTypeId) :
    (oneValueEnvironment valueType).Reads oneValueContents where
  noEntryFilters := rfl
  noElementFilters := rfl
  noPredicates := rfl
  noEventRange := rfl
  noEntryRange := rfl
  opens _ _ := rfl
  reads _ _ _ := ⟨_, rfl, rfl⟩

/-- The double transport counts and emits the one value. -/
theorem metadata_count_of_one_value :
    ∃ total emitted, planMetadataCount oneValueSelection [oneValueRows.1] = .ok total ∧
      MetadataEmits (oneValueEnvironment .integer).global total 2048 emitted ∧
      ScanEmits (oneValueEnvironment .integer)
        (fun _ : Fin 1 => (oneValueEnvironment .integer).global.taskGroups) emitted := by
  obtain ⟨state, hplan⟩ := oneValue_planned .integer
  refine (@metadata_count_eq_scan_iff Unit (Fin 1) _ _ (oneValueEnvironment .integer)
    oneValueSelection [oneValuePath] oneValueContents _ oneValue_built (by decide) ?_ (by decide) {}
    ⟨rfl, rfl, rfl, rfl⟩ rfl _ _ _ (List.Perm.refl _) hplan (oneValue_reads .integer) _ ?_ 2048
    (by decide)).mpr (Or.inr (Or.inl rfl))
  · intro path hpath _
    rw [List.mem_singleton.mp hpath]
    exact ⟨rfl, rfl, fun _ _ => ⟨_, rfl, rfl⟩⟩
  · rfl

/-- The typed transport emits the value of the first basket again with the second. -/
theorem metadata_count_misses_repeated_row :
    ¬ ∃ total emitted, planMetadataCount oneValueSelection [oneValueRows.1] = .ok total ∧
      MetadataEmits (oneValueEnvironment .bigint).global total 2048 emitted ∧
      ScanEmits (oneValueEnvironment .bigint)
        (fun _ : Fin 1 => (oneValueEnvironment .bigint).global.taskGroups) emitted := by
  rintro ⟨total, emitted, htotal, hmetadata, hscan⟩
  have hcounted : total = 1 := by
    cases htotal
    rfl
  have hone := hmetadata.unique (metadataScan_emits (by decide))
  have htasks : ∀ task ∈ groupTasks (oneValueEnvironment .bigint)
      (oneValueEnvironment .bigint).global.taskGroups, task.InFile oneValueContents := by
    intro task htask
    have hplanned : task ∈ oneValueRows.2.map fun basket => (joinedRow basket oneValueRows.1).task :=
      htask
    obtain ⟨basket, hbasket, rfl⟩ := List.mem_map.mp hplanned
    rcases List.mem_cons.mp hbasket with rfl | hsecond
    · exact ⟨by decide, rfl, by decide⟩
    · rw [List.mem_singleton.mp hsecond]
      exact ⟨by decide, rfl, by decide⟩
  obtain ⟨hquiet, hlength⟩ := taskEvents_length (oneValue_reads .bigint) htasks
  have htwo := hscan.unique (scan_emits (oneValueEnvironment .bigint) _ fun _ => hquiet)
  rw [hone, hcounted] at htwo
  simp only [hlength] at htwo
  exact absurd htwo (by decide)

end RootLake.Dataset

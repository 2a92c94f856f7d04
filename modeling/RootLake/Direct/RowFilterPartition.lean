/-
  RootLake/Direct/RowFilterPartition.lean
  =======================================
  **Pushed filters once per entry and once per element.**

  Both scans split the pushed filters when they start.  A comparison of an entry's column
  with a constant is an entry filter, evaluated once for an entry; every other filter is an
  element filter, evaluated for each value.  The split loses and doubles no filter
  (`partitionRootRowFilters_perm`).  Since the columns of an entry show the same scalar in
  all its rows, the two rounds together accept the rows that all filters accept.
-/
import RootLake.Dataset.FilterExpression
import RootLake.Dataset.ScanExactlyOnce
import RootLake.Direct.CachedPage

namespace RootLake.Dataset

variable {K : Type}

def Operand.isConstant : Operand K → Bool
  | .constant _ => true
  | _ => false

/-- A comparison of the column with a constant; wrappers are not looked into. -/
def rootIsSimpleConstantComparisonFilter : TableFilter K → Bool
  | .expression (.comparison _ left right) =>
      (rootIsColumnReference left && right.isConstant) ||
        (rootIsColumnReference right && left.isConstant)
  | _ => false

/-! ## 1. The split -/

section Partition

variable (scanColumns : List Nat) (isEntryScoped : Nat → Bool)

def isEntryFilter (binding : RootFilterBinding (TableFilter K)) : Bool :=
  rootIsSimpleConstantComparisonFilter binding.filter && isEntryScoped binding.columnId

/-- One round of `PartitionRootRowFilters`: a filter is pushed to its list. -/
def pushRowFilter (lists : List (RootFilterBinding (TableFilter K)) ×
      List (RootFilterBinding (TableFilter K))) (item : Nat × TableFilter K) :
    List (RootFilterBinding (TableFilter K)) × List (RootFilterBinding (TableFilter K)) :=
  match scanColumns[item.1]? with
  | none => lists
  | some column =>
      let binding := ⟨column, item.2⟩
      if isEntryFilter isEntryScoped binding then (lists.1 ++ [binding], lists.2)
      else (lists.1, lists.2 ++ [binding])

/-- `PartitionRootRowFilters`, from the filters with their positions in the scan columns to
    the entry filters and the element filters. -/
def partitionRootRowFilters (filters : List (Nat × TableFilter K)) :
    List (RootFilterBinding (TableFilter K)) × List (RootFilterBinding (TableFilter K)) :=
  filters.foldl (pushRowFilter scanColumns isEntryScoped) ([], [])

/-- The filters of a set that are bound to a scanned column. -/
def boundFilters (filters : List (Nat × TableFilter K)) :
    List (RootFilterBinding (TableFilter K)) :=
  filters.filterMap fun (position, filter) => scanColumns[position]?.map (⟨·, filter⟩)

theorem foldl_pushRowFilter (filters : List (Nat × TableFilter K))
    (lists : List (RootFilterBinding (TableFilter K)) × List (RootFilterBinding (TableFilter K))) :
    filters.foldl (pushRowFilter scanColumns isEntryScoped) lists =
      (lists.1 ++ (boundFilters scanColumns filters).filter (isEntryFilter isEntryScoped),
        lists.2 ++ (boundFilters scanColumns filters).filter fun binding =>
          !isEntryFilter isEntryScoped binding) := by
  induction filters generalizing lists with
  | nil => simp [boundFilters]
  | cons item filters ih =>
    rw [List.foldl_cons, ih, pushRowFilter]
    cases hcolumn : scanColumns[item.1]? with
    | none => simp [boundFilters, hcolumn]
    | some column =>
      cases hentry : isEntryFilter isEntryScoped ⟨column, item.2⟩ <;>
        simp [boundFilters, hcolumn, hentry]

theorem partitionRootRowFilters_eq (filters : List (Nat × TableFilter K)) :
    partitionRootRowFilters scanColumns isEntryScoped filters =
      ((boundFilters scanColumns filters).filter (isEntryFilter isEntryScoped),
        (boundFilters scanColumns filters).filter fun binding =>
          !isEntryFilter isEntryScoped binding) :=
  foldl_pushRowFilter scanColumns isEntryScoped filters ([], [])

/-- **Every bound filter is in one list, once.** -/
theorem partitionRootRowFilters_perm (filters : List (Nat × TableFilter K)) :
    ((partitionRootRowFilters scanColumns isEntryScoped filters).1 ++
      (partitionRootRowFilters scanColumns isEntryScoped filters).2).Perm
        (boundFilters scanColumns filters) := by
  rw [partitionRootRowFilters_eq]
  exact List.filter_append_perm _ _

variable (evaluate : Evaluate (TableFilter K))

/-- All filters of a set that are bound to a scanned column are true. -/
def allFiltersPass (filters : List (Nat × TableFilter K)) (resolve : Nat → RootScalarActual) :
    Bool :=
  evaluateRootRowFilters evaluate (boundFilters scanColumns filters) resolve

/-- **The two rounds together are all filters**, where entry-scoped columns show in the entry
    what they show in the row. -/
theorem partition_evaluates {resolveEntry resolveRow : Nat → RootScalarActual}
    (hscoped : ∀ column, isEntryScoped column = true → resolveEntry column = resolveRow column)
    (filters : List (Nat × TableFilter K)) :
    (evaluateRootRowFilters evaluate
        (partitionRootRowFilters scanColumns isEntryScoped filters).1 resolveEntry &&
      evaluateRootRowFilters evaluate
        (partitionRootRowFilters scanColumns isEntryScoped filters).2 resolveRow) =
      allFiltersPass scanColumns evaluate filters resolveRow := by
  rw [Bool.eq_iff_iff, Bool.and_eq_true]
  simp only [allFiltersPass, evaluateRootRowFilters, partitionRootRowFilters_eq, List.all_eq_true,
    List.mem_filter, Bool.not_eq_true']
  constructor
  · rintro ⟨hentry, helement⟩ binding hbound
    cases hcase : isEntryFilter isEntryScoped binding with
    | false => exact helement binding ⟨hbound, hcase⟩
    | true =>
      have hcolumn : isEntryScoped binding.columnId = true := (Bool.and_eq_true_iff.mp hcase).2
      rw [← hscoped _ hcolumn]
      exact hentry binding ⟨hbound, hcase⟩
  · intro hall
    refine ⟨?_, fun binding hmem => hall binding hmem.1⟩
    rintro binding ⟨hbound, hcase⟩
    have hcolumn : isEntryScoped binding.columnId = true := (Bool.and_eq_true_iff.mp hcase).2
    rw [hscoped _ hcolumn]
    exact hall binding hbound

end Partition

/-! ## 2. The dataset scan -/

section DatasetScan

/-- The columns whose scalar belongs to the entry: the event, the source and the entry id. -/
def datasetEntryScoped (bind : DatasetBindData) (column : Nat) : Bool :=
  decide (column = 0) || decide (column = bind.sourceIdColumn) ||
    decide (column = bind.entryIdColumn)

/-- The output columns as the bind function numbers them. -/
structure DatasetBindData.OutputColumns (bind : DatasetBindData) : Prop where
  value : bind.valueColumn = 1 + bind.indexNames.length
  sourceId : bind.sourceIdColumn = bind.valueColumn + 1
  entryId : bind.entryIdColumn = bind.sourceIdColumn + 1

variable (env : ScanEnvironment (TableFilter K)) (scanColumns : List Nat)
  (filters : List (Nat × TableFilter K))

/-- The scan with the filters that `Plan` has split. -/
def partitionedScan : ScanEnvironment (TableFilter K) :=
  { env with
    entryFilters :=
      (partitionRootRowFilters scanColumns (datasetEntryScoped env.bind) filters).1
    elementFilters :=
      (partitionRootRowFilters scanColumns (datasetEntryScoped env.bind) filters).2 }

/-- The scan without filters. -/
def unfilteredScan : ScanEnvironment (TableFilter K) :=
  { env with entryFilters := [], elementFilters := [] }

variable {env} {task : RootBasketTask} {entry : UInt64}

/-- The entry's round and the row's round are all filters, in a row of the entry. -/
theorem datasetRow_filters (hcolumns : env.bind.OutputColumns) {row : DatasetRow}
    (hevent : row.eventFk = task.eventBase + entry) (hentry : row.entryId = entry)
    (hsource : row.sourceId = task.fileId) :
    (passesDatasetEntryFilters env.evaluate env.bind
        (partitionedScan env scanColumns filters).entryFilters task entry &&
      passesFilters env.evaluate env.bind (partitionedScan env scanColumns filters).elementFilters
        row) =
      allFiltersPass scanColumns env.evaluate filters (datasetRowActual env.bind row) := by
  apply partition_evaluates
  intro column hscoped
  have hvalue := hcolumns.value
  have hsourceId := hcolumns.sourceId
  have hentryId := hcolumns.entryId
  simp only [datasetEntryScoped, Bool.or_eq_true, decide_eq_true_eq] at hscoped
  rcases hscoped with (rfl | rfl) | rfl
  · simp [datasetRowActual, hevent]
  · rw [if_neg (by omega), if_neg (by omega), if_pos rfl, datasetRowActual, if_neg (by omega),
      if_neg (by omega), if_neg (by omega), if_pos rfl, hsource]
  · rw [if_neg (by omega), if_pos rfl, datasetRowActual, if_neg (by omega), if_neg (by omega),
      if_neg (by omega), if_neg (by omega), if_pos rfl, hentry]

/-- What the unfiltered scan decodes of an entry is a row of the entry. -/
theorem decodedRows_entry {rows : List DatasetRow} (h : decodedRows env task entry = .ok rows) :
    ∀ row ∈ rows, row.eventFk = task.eventBase + entry ∧ row.entryId = entry ∧
      row.sourceId = task.fileId := by
  have hvalues : ∀ values : List (DecodedValue env.indexCount),
      ∀ row ∈ values.map (valueRow env (entryPage env task entry)),
        row.eventFk = task.eventBase + entry ∧ row.entryId = entry ∧
          row.sourceId = task.fileId := by
    intro values row hrow
    obtain ⟨v, -, rfl⟩ := List.mem_map.mp hrow
    exact ⟨rfl, rfl, rfl⟩
  rw [decodedRows] at h
  split at h
  · contradiction
  · simp [← Except.ok.inj h]
  · simp [← Except.ok.inj h]
  · exact Except.ok.inj h ▸ hvalues _
  · split at h
    · contradiction
    · exact Except.ok.inj h ▸ hvalues _

/-- The entry filters only keep entries from being read. -/
theorem decodedRows_partitioned {rows : List DatasetRow}
    (h : decodedRows (unfilteredScan env) task entry = .ok rows) :
    decodedRows (partitionedScan env scanColumns filters) task entry =
      .ok (if passesDatasetEntryFilters env.evaluate env.bind
          (partitionedScan env scanColumns filters).entryFilters task entry then rows else []) := by
  have hrange : eventFkExceedsRange task entry = false := by
    by_contra hexceeds
    rw [Bool.not_eq_false] at hexceeds
    simp [decodedRows, entryAnswer, beginEntry, hexceeds] at h
  cases hpasses : passesDatasetEntryFilters env.evaluate env.bind
      (partitionedScan env scanColumns filters).entryFilters task entry with
  | true =>
    have hanswer : entryAnswer (partitionedScan env scanColumns filters) task entry =
        entryAnswer (unfilteredScan env) task entry := by
      rw [entryAnswer, entryAnswer, beginEntry, beginEntry, hrange]
      change (if (!passesDatasetEntryFilters env.evaluate env.bind
        (partitionedScan env scanColumns filters).entryFilters task entry) = true then _ else _) = _
      rw [hpasses]
      rfl
    rw [if_pos rfl, ← h, decodedRows, decodedRows, hanswer]
    rcases entryAnswer (unfilteredScan env) task entry with e | _ | _ | values | pages <;> rfl
  | false =>
    have hanswer : entryAnswer (partitionedScan env scanColumns filters) task entry = .ok none := by
      rw [entryAnswer, beginEntry, hrange]
      change (if (!passesDatasetEntryFilters env.evaluate env.bind
        (partitionedScan env scanColumns filters).entryFilters task entry) = true then _ else _) = _
      rw [hpasses]
      rfl
    rw [decodedRows, hanswer]
    rfl

/-- **The dataset scan emits the rows of an entry that all filters accept.** -/
theorem outputRows_partitioned (hcolumns : env.bind.OutputColumns) {rows : List DatasetRow}
    (h : decodedRows (unfilteredScan env) task entry = .ok rows) :
    (outputRows (partitionedScan env scanColumns filters)) <$>
        decodedRows (partitionedScan env scanColumns filters) task entry =
      .ok ((rows.filter fun row =>
        allFiltersPass scanColumns env.evaluate filters (datasetRowActual env.bind row)).map
          (emitProjectedRow env.bind env.outputColumnIds)) := by
  rw [decodedRows_partitioned scanColumns filters h]
  have hsplit : ∀ row ∈ rows, allFiltersPass scanColumns env.evaluate filters
      (datasetRowActual env.bind row) =
        (passesDatasetEntryFilters env.evaluate env.bind
            (partitionedScan env scanColumns filters).entryFilters task entry &&
          passesFilters env.evaluate env.bind
            (partitionedScan env scanColumns filters).elementFilters row) := by
    intro row hrow
    obtain ⟨hevent, hentry, hsource⟩ := decodedRows_entry h row hrow
    exact (datasetRow_filters scanColumns filters hcolumns hevent hentry hsource).symm
  rw [List.filter_congr hsplit]
  cases passesDatasetEntryFilters env.evaluate env.bind
      (partitionedScan env scanColumns filters).entryFilters task entry with
  | true => rfl
  | false => simp [outputRows]

end DatasetScan

end RootLake.Dataset

namespace RootLake.Direct

open Dataset

variable {K : Type}

/-! ## 3. The direct scan -/

section CachedScan

variable (bind : RootScanColumns) (page : CachedPage)

/-- The columns whose scalar belongs to the entry: the row id, the source and the entry id. -/
def directEntryScoped (columnId : Nat) : Bool :=
  decide (columnId = columnIdentifierRowId) || decide (bind.sourceIdColumn = some columnId) ||
    decide (bind.sourcePathColumn = some columnId) ||
    bind.columns[columnId]?.any fun column =>
      decide (column.name = "entry_id") && column.levels.isEmpty

theorem cachedScalar_entryScoped {columnId : Nat} (h : directEntryScoped bind columnId = true)
    (elem other : Nat) :
    cachedScalar bind page elem columnId = cachedScalar bind page other columnId := by
  by_cases hrow : columnId = columnIdentifierRowId
  · rw [cachedScalar, cachedScalar, if_pos hrow, if_pos hrow]
  rw [cachedScalar, cachedScalar, if_neg hrow, if_neg hrow]
  cases hcolumn : bind.columns[columnId]? with
  | none => rfl
  | some column =>
    dsimp only
    split_ifs with hentry hsource hpath
    · rfl
    · rfl
    · rfl
    all_goals simp [directEntryScoped, hrow, hcolumn, hsource, hpath] at h
    all_goals exact absurd h (by simpa using hentry)

/-- The elements of a page: the longest result, and one where no result has a value. -/
def maxElements : Nat := max 1 ((page.results.map (·.rows.length)).foldl max 0)

/-- The element loop of a call with room for some rows: the elements it emits a row for, and
    those it leaves. -/
def emitElements (passes : Nat → Bool) : List Nat → Nat → List Nat × List Nat
  | [], _ => ([], [])
  | elements, 0 => ([], elements)
  | elem :: elements, room + 1 =>
      if passes elem then
        let (emitted, left) := emitElements passes elements room
        (elem :: emitted, left)
      else emitElements passes elements (room + 1)

section Calls

variable (evaluate : Evaluate (TableFilter K)) (global : RootScanFilters (TableFilter K))

/-- `ProcessCachedEntry` from the current element on: the entry filters once, the element
    filters for each element. -/
def processCachedEntry (elements : List Nat) (room : Nat) : List Nat × List Nat :=
  let entryFiltersPass :=
    evaluateRootRowFilters evaluate global.entryFilters (cachedScalar bind page 0)
  emitElements (fun elem => entryFiltersPass && (global.elementFilters.isEmpty ||
    evaluateRootRowFilters evaluate global.elementFilters (cachedScalar bind page elem)))
    elements room

/-- The calls until the page is used up, with the room each output chunk has. -/
def processCachedPage : List Nat → List Nat → List Nat × List Nat
  | elements, [] => ([], elements)
  | elements, room :: rooms =>
      let (emitted, left) := processCachedEntry bind page evaluate global elements room
      let (more, left) := processCachedPage left rooms
      (emitted ++ more, left)

end Calls

theorem emitElements_spec (passes : Nat → Bool) (elements : List Nat) (room : Nat) :
    (emitElements passes elements room).1 ++ (emitElements passes elements room).2.filter passes =
      elements.filter passes := by
  induction elements generalizing room with
  | nil => rw [emitElements]; rfl
  | cons elem elements ih =>
    cases room with
    | zero => rfl
    | succ room =>
      rw [emitElements]
      cases hpasses : passes elem with
      | true => simp [hpasses, ih room]
      | false => simp [hpasses, ih (room + 1)]

theorem emitElements_left_le (passes : Nat → Bool) (elements : List Nat) (room : Nat) :
    (emitElements passes elements room).2.length ≤ elements.length := by
  induction elements generalizing room with
  | nil => rw [emitElements]
  | cons elem elements ih =>
    cases room with
    | zero => exact le_rfl
    | succ room =>
      rw [emitElements, List.length_cons]
      cases passes elem with
      | true => exact (ih room).trans (Nat.le_succ _)
      | false => exact (ih (room + 1)).trans (Nat.le_succ _)

/-- A call with room leaves fewer elements. -/
theorem emitElements_progress (passes : Nat → Bool) (elem : Nat) (elements : List Nat)
    (room : Nat) :
    (emitElements passes (elem :: elements) (room + 1)).2.length ≤ elements.length := by
  rw [emitElements]
  cases passes elem with
  | true => exact emitElements_left_le passes elements room
  | false => exact emitElements_left_le passes elements (room + 1)

section Runs

variable (evaluate : Evaluate (TableFilter K)) (scanColumns : List Nat)
  (filters : List (Nat × TableFilter K)) (outputColumnIds : List Nat)

/-- The filters that `CreateGlobal` has split. -/
def partitionedGlobal : RootScanFilters (TableFilter K) where
  entryFilters := (partitionRootRowFilters scanColumns (directEntryScoped bind) filters).1
  elementFilters := (partitionRootRowFilters scanColumns (directEntryScoped bind) filters).2
  outputColumnIds := outputColumnIds

/-- All filters of the set are true in the row of an element. -/
def elementPasses (elem : Nat) : Bool :=
  allFiltersPass scanColumns evaluate filters (cachedScalar bind page elem)

theorem processCachedEntry_eq (elements : List Nat) (room : Nat) :
    processCachedEntry bind page evaluate
        (partitionedGlobal bind scanColumns filters outputColumnIds) elements room =
      emitElements (elementPasses bind page evaluate scanColumns filters) elements room := by
  dsimp only [processCachedEntry]
  congr 1
  funext elem
  have hempty : ∀ bindings : List (RootFilterBinding (TableFilter K)),
      (bindings.isEmpty || evaluateRootRowFilters evaluate bindings (cachedScalar bind page elem)) =
        evaluateRootRowFilters evaluate bindings (cachedScalar bind page elem) := by
    intro bindings
    cases bindings <;> rfl
  rw [hempty, elementPasses, ← partition_evaluates scanColumns (directEntryScoped bind) evaluate
    fun column hscoped => cachedScalar_entryScoped bind page hscoped 0 elem]
  rfl

theorem processCachedPage_spec (elements rooms : List Nat) :
    (processCachedPage bind page evaluate
        (partitionedGlobal bind scanColumns filters outputColumnIds) elements rooms).1 ++
      (processCachedPage bind page evaluate
        (partitionedGlobal bind scanColumns filters outputColumnIds) elements rooms).2.filter
          (elementPasses bind page evaluate scanColumns filters) =
      elements.filter (elementPasses bind page evaluate scanColumns filters) := by
  induction rooms generalizing elements with
  | nil => rfl
  | cons room rooms ih =>
    rw [processCachedPage, processCachedEntry_eq]
    dsimp only
    rw [List.append_assoc, ih]
    exact emitElements_spec _ elements room

theorem processCachedPage_ends {elements rooms : List Nat} (hrooms : ∀ room ∈ rooms, 0 < room)
    (hlength : elements.length ≤ rooms.length) :
    (processCachedPage bind page evaluate
      (partitionedGlobal bind scanColumns filters outputColumnIds) elements rooms).2 = [] := by
  induction rooms generalizing elements with
  | nil => exact List.eq_nil_of_length_eq_zero (Nat.le_zero.mp hlength)
  | cons room rooms ih =>
    rw [processCachedPage, processCachedEntry_eq]
    apply ih fun other hother => hrooms other (List.mem_cons_of_mem _ hother)
    obtain ⟨more, rfl⟩ := Nat.exists_eq_add_of_lt (hrooms room List.mem_cons_self)
    cases elements with
    | nil => exact Nat.zero_le _
    | cons elem elements =>
      rw [Nat.zero_add]
      exact (emitElements_progress _ elem elements more).trans (Nat.le_of_succ_le_succ hlength)

end Runs

end CachedScan

/-! ## 4. The split is faithful -/

/-- What a split of a filter set has to do: each bound filter is in one list, once, the entry
    list has the comparisons of entry columns, and the two rounds together are all filters. -/
structure FaithfulSplit (evaluate : Evaluate (TableFilter K)) (scanColumns : List Nat)
    (filters : List (Nat × TableFilter K)) (isEntryScoped : Nat → Bool)
    (lists : List (RootFilterBinding (TableFilter K)) × List (RootFilterBinding (TableFilter K))) :
    Prop where
  once : (lists.1 ++ lists.2).Perm (boundFilters scanColumns filters)
  entry : ∀ binding ∈ lists.1, isEntryFilter isEntryScoped binding = true
  element : ∀ binding ∈ lists.2, isEntryFilter isEntryScoped binding = false
  accepts : ∀ resolveEntry resolveRow,
    (∀ column, isEntryScoped column = true → resolveEntry column = resolveRow column) →
    (evaluateRootRowFilters evaluate lists.1 resolveEntry &&
      evaluateRootRowFilters evaluate lists.2 resolveRow) =
        allFiltersPass scanColumns evaluate filters resolveRow

theorem partition_faithful (evaluate : Evaluate (TableFilter K)) (scanColumns : List Nat)
    (filters : List (Nat × TableFilter K)) (isEntryScoped : Nat → Bool) :
    FaithfulSplit evaluate scanColumns filters isEntryScoped
      (partitionRootRowFilters scanColumns isEntryScoped filters) where
  once := partitionRootRowFilters_perm scanColumns isEntryScoped filters
  entry binding hbinding := by
    rw [partitionRootRowFilters_eq] at hbinding
    exact (List.mem_filter.mp hbinding).2
  element binding hbinding := by
    rw [partitionRootRowFilters_eq] at hbinding
    simpa using (List.mem_filter.mp hbinding).2
  accepts _ _ hscoped := partition_evaluates scanColumns isEntryScoped evaluate hscoped filters

/-- **The split of pushed filters is faithful**: it is a faithful split for every filter set,
    mapping and classification; the calls for a decoded page of the direct scan emit exactly
    the elements that all filters accept; and so does the dataset scan with the rows of an
    entry. -/
theorem rowFilters_split_faithfully (evaluate : Evaluate (TableFilter K)) (scanColumns : List Nat)
    (filters : List (Nat × TableFilter K)) :
    (∀ isEntryScoped, FaithfulSplit evaluate scanColumns filters isEntryScoped
      (partitionRootRowFilters scanColumns isEntryScoped filters)) ∧
    (∀ (bind : RootScanColumns) (page : CachedPage) (outputColumnIds rooms : List Nat),
      (∀ room ∈ rooms, 0 < room) → maxElements page ≤ rooms.length →
      processCachedPage bind page evaluate
          (partitionedGlobal bind scanColumns filters outputColumnIds)
          (List.range (maxElements page)) rooms =
        ((List.range (maxElements page)).filter
          (elementPasses bind page evaluate scanColumns filters), [])) ∧
    ∀ env : ScanEnvironment (TableFilter K), env.evaluate = evaluate → env.bind.OutputColumns →
      ∀ (task : RootBasketTask) (entry : UInt64) (rows : List DatasetRow),
        decodedRows (unfilteredScan env) task entry = .ok rows →
        outputRows (partitionedScan env scanColumns filters) <$>
            decodedRows (partitionedScan env scanColumns filters) task entry =
          .ok ((rows.filter fun row =>
            allFiltersPass scanColumns evaluate filters (datasetRowActual env.bind row)).map
              (emitProjectedRow env.bind env.outputColumnIds)) := by
  refine ⟨partition_faithful evaluate scanColumns filters, ?_, ?_⟩
  · intro bind page outputColumnIds rooms hrooms hlength
    have hspec := processCachedPage_spec bind page evaluate scanColumns filters outputColumnIds
      (List.range (maxElements page)) rooms
    have hrange : (List.range (maxElements page)).length ≤ rooms.length := by
      rwa [List.length_range]
    have hends := processCachedPage_ends bind page evaluate scanColumns filters outputColumnIds
      hrooms hrange
    rw [hends, List.filter_nil, List.append_nil] at hspec
    exact Prod.ext hspec hends
  · rintro env rfl hcolumns task entry rows h
    exact outputRows_partitioned scanColumns filters hcolumns h

/-- Equality with a constant number. -/
def compareEqualTo (value : Int) : TableFilter Int :=
  .expression (.comparison .compareEqual .column (.constant (.number .bigint value)))

def evaluateEqual : Evaluate (TableFilter Int)
  | .expression (.comparison .compareEqual .column (.constant (.number _ value))), actual =>
      match actual with
      | .event x => decide ((x.toNat : Int) = value)
      | .signed x _ => decide (x.toInt = value)
      | _ => false
  | _, _ => false

/-- A page of entry 3 with the values 6 and 7 of a column behind the entry id. -/
def twoElementPage : CachedPage where
  entry := 3
  results := [{}, { rows := [⟨.number (.signed 6), 3, []⟩, ⟨.number (.signed 7), 3, []⟩] }]

def entryAndValue : RootScanColumns where
  columns := [{ name := "entry_id" }, { name := "x", logicalType := .bigint }]

/-- The values 6 and 7 of every entry, in a dataset. -/
def twoValueEnvironment : ScanEnvironment (TableFilter Int) where
  bind := { valueType := .bigint }
  global := {}
  outputColumnIds := [.column 3, .column 1]
  standardVectorSize := 2048
  evaluate := evaluateEqual
  openRootFile := fun _ => .ok ()
  numericEntry := fun _ _ => .ok (.serializedValues [⟨.signed 6, [], List.length_nil⟩,
    ⟨.signed 7, [], List.length_nil⟩])
  predicateValues := fun _ _ _ => none

/-- An entry filter and an element filter, in both scans. -/
theorem entry_and_value_filters :
    processCachedPage entryAndValue twoElementPage evaluateEqual
        (partitionedGlobal entryAndValue [0, 1] [(0, compareEqualTo 3), (1, compareEqualTo 7)]
          [1]) (List.range (maxElements twoElementPage)) [2048, 2048] = ([1], []) ∧
      outputRows (partitionedScan twoValueEnvironment [3, 1]
          [(0, compareEqualTo 3), (1, compareEqualTo 7)]) <$>
        decodedRows (partitionedScan twoValueEnvironment [3, 1]
          [(0, compareEqualTo 3), (1, compareEqualTo 7)]) default 3 =
        .ok [[.unsigned 3, .value (.primitive (.signed 7))]] :=
  ⟨((rowFilters_split_faithfully evaluateEqual [0, 1]
      [(0, compareEqualTo 3), (1, compareEqualTo 7)]).2.1 entryAndValue twoElementPage [1]
        [2048, 2048] (by decide) (by decide)).trans (by decide),
    ((rowFilters_split_faithfully evaluateEqual [3, 1]
      [(0, compareEqualTo 3), (1, compareEqualTo 7)]).2.2 twoValueEnvironment rfl ⟨rfl, rfl, rfl⟩
        default 3 _ rfl).trans (by rfl)⟩

end RootLake.Direct

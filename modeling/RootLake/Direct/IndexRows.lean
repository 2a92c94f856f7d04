/-
  RootLake/Direct/IndexRows.lean
  ==============================
  **What the index columns show of a row.**

  A page of a relation has the results of its columns, read from objects or decoded from
  baskets.  The index tuple of a row is that of the first column which has the row
  (`rowTuple`).  `IdentifiesRows` says that there is one index column for every index, that
  column `k` is resolved to position `k` of the tuple, that every value stands beside its own
  indices, and that two rows of an object differ in a column.

  A relation is bound like this exactly if its index names have no commas, differ in more than
  case, and count no level twice, and its columns have the same tuple wherever they have a row
  (`bindDirectPrimitives_identifies_iff`).  The object decoder does not compare the columns: one
  that leaves out a null pointer is a row behind its siblings from there on.
-/
import RootLake.Direct.IndexColumns
import RootLake.Reader.RowTuples

namespace RootLake.Direct

open KeepFirst Dataset

/-! ### Serialized results -/

def splitIndexSignature (signature : String) : List String :=
  (getLines signature).filter (· ≠ "")

/-- The decoded values of an entry as a result of the column. -/
def materializeSerializedResult (column : RootScanColumn) (entry : UInt64) (indexDepth : Nat)
    (values : List RootPrimitiveValue) (flatIndices : List Int) : Except String ReadResult :=
  if entry.toNat > 2 ^ 63 - 1 then
    .error "ROOT entry id exceeds the supported signed 64-bit range"
  else
    let indexNames := splitIndexSignature column.indexSignature
    if indexNames.length ≠ indexDepth || flatIndices.length ≠ values.length * indexDepth then
      .error "serialized ROOT index shape differs from bound SQL schema"
    else
      .ok {
        rows := values.zipIdx.map fun (value, i) =>
          { value := .number value
            entryId := entry.toInt64
            indices := (flatIndices.drop (i * indexDepth)).take indexDepth }
        vectorNames := if values.isEmpty then [] else indexNames }

/-! ### Pages of a relation -/

/-- The result of a column in a page: cleared, a page of an object, or the values that were
    decoded of a basket. -/
inductive ColumnPage (dictionary : Dictionary) (column : RootScanColumn) : ReadResult → Prop
  | cleared {page} : page.rows = [] → ColumnPage dictionary column page
  | object {mem : RootMemory} {root : Address} {entryId : Int64} {later : List TraversalEvent}
      {cursor next : OffsetValueCursor} {limit : Nat} {page : ReadResult} :
      mem.Agrees dictionary → cursor.Reads mem root column.levels entryId later →
      1 ≤ limit → cursor.readPage mem limit = .ok (true, page, next) →
      ColumnPage dictionary column page
  | serialized {entry : UInt64} {indexDepth : Nat} {values : List RootPrimitiveValue}
      {flatIndices : List Int} {page : ReadResult} :
      (∀ leaf ∈ column.levels.getLast?, leaf.isPrimitive = true) →
      materializeSerializedResult column entry indexDepth values flatIndices = .ok page →
      ColumnPage dictionary column page

/-- The results of a page, one for each column; only columns of values have rows. -/
structure RelationPage (dictionary : Dictionary) (bind : RootScanColumns)
    (results : List ReadResult) : Prop where
  length_le : results.length ≤ bind.columns.length
  column : ∀ {i : Nat} {column : RootScanColumn} {result : ReadResult},
    bind.columns[i]? = some column → results[i]? = some result → result.rows ≠ [] →
      column ∈ bind.valueColumns ∧ ColumnPage dictionary column result

/-- The index tuple of a row of a page. -/
def rowTuple (results : List ReadResult) (elem : Nat) : Option (List Int) :=
  results.findSome? fun result => result.rows[elem]?.map (·.indices)

/-- The sources of a page's index columns are unknown, or those found once for the page. -/
def SourcesOf (bind : RootScanColumns) (page : CachedPage) : Prop :=
  page.indexSources = [] ∨
    ∃ columnIds, page.indexSources = resolveIndexSources bind page.results columnIds

/-! ### Rows of an entry -/

/-- The index tuples of the rows of a result. -/
def tuples (result : ReadResult) : List (List Int) := result.rows.map (·.indices)

/-- What the columns of a relation read of an object; a column that is not read has no rows. -/
structure ObjectRows (dictionary : Dictionary) (bind : RootScanColumns)
    (entry : List ReadResult) : Prop where
  length_le : entry.length ≤ bind.columns.length
  column : ∃ (mem : RootMemory) (object : Address) (entryId : Int64), mem.Agrees dictionary ∧
    ∀ {i : Nat} {column : RootScanColumn} {result : ReadResult},
      bind.columns[i]? = some column → entry[i]? = some result → result.rows ≠ [] →
        column ∈ bind.valueColumns ∧
          collectDirect mem object column.levels (-1) entryId {} = .ok result

/-- A page of the entry: every result has the rows of its column from `offset` on. -/
structure EntryPage (dictionary : Dictionary) (bind : RootScanColumns) (entry : List ReadResult)
    (offset : Nat) (page : CachedPage) : Prop where
  relation : RelationPage dictionary bind page.results
  sources : SourcesOf bind page
  rows : ∀ {i : Nat} {result : ReadResult}, page.results[i]? = some result → result.rows ≠ [] →
    ∃ full, entry[i]? = some full ∧ tuples result <+: (tuples full).drop offset

/-- Columns that have a row have the same tuple there. -/
def LinedUp (entry : List ReadResult) : Prop :=
  ∀ full ∈ entry, ∀ other ∈ entry, ∀ (r : Nat) (tuple tuple' : List Int),
    (tuples full)[r]? = some tuple → (tuples other)[r]? = some tuple' → tuple = tuple'

/-- In every object the columns of the relation line up. -/
def ColumnsLineUp (dictionary : Dictionary) (bind : RootScanColumns) : Prop :=
  ∀ entry, ObjectRows dictionary bind entry → LinedUp entry

/-- What the index columns show in a row of a page; index column `k` is column `k + 1`. -/
def shownIndices (bind : RootScanColumns) (page : CachedPage) (elem : Nat) :
    List (Option Int) :=
  (List.range bind.indexColumns.length).map fun k => resolveCachedIndexValue bind page (k + 1) elem

/-- The index columns of a relation identify its rows. -/
structure IdentifiesRows (dictionary : Dictionary) (bind : RootScanColumns) : Prop where
  count : ∀ column ∈ bind.valueColumns, bind.indexColumns.length = indexDepth column.levels
  resolves : ∀ {page : CachedPage}, RelationPage dictionary bind page.results →
    SourcesOf bind page → ∀ {elem : Nat} {tuple : List Int},
      rowTuple page.results elem = some tuple →
      (∀ column ∈ bind.valueColumns, tuple.length = indexDepth column.levels) ∧
        ∀ k < tuple.length,
          (∃ source, findCachedIndexSource bind page.results (k + 1) (some elem) =
            some (source, k)) ∧
          resolveCachedIndexValue bind page (k + 1) elem = tuple[k]?
  shows : ∀ {entry : List ReadResult} {offset : Nat} {page : CachedPage},
    ObjectRows dictionary bind entry → EntryPage dictionary bind entry offset page →
    ∀ {result : ReadResult} {elem : Nat} {row : ReadRow}, result ∈ page.results →
      result.rows[elem]? = some row → shownIndices bind page elem = row.indices.map some
  differ : ∀ {entry : List ReadResult} {offset offset' : Nat} {page page' : CachedPage},
    ObjectRows dictionary bind entry → EntryPage dictionary bind entry offset page →
    EntryPage dictionary bind entry offset' page' →
    ∀ {elem elem' : Nat} {tuple tuple' : List Int}, rowTuple page.results elem = some tuple →
      rowTuple page'.results elem' = some tuple' → offset + elem ≠ offset' + elem' →
      shownIndices bind page elem ≠ shownIndices bind page' elem'

/-! ### Columns of a relation -/

section

variable {cls : SelectedClass} {logicalType : PathLevel → LogicalTypeId}
variable {selection : SemanticPathSelection} {signature : String}

/-- The columns by their kind. -/
theorem bindDirectPrimitives_columns
    (h : ∀ path ∈ selection.primitivePaths, SelectedPath cls signature path) :
    let columns := resolvedColumns cls logicalType selection.bindPrefix selection.primitivePaths []
    (bindDirectPrimitives cls logicalType selection).valueColumns = columns ∧
      (bindDirectPrimitives cls logicalType selection).indexColumns =
        (orderedIndexNames columns).map (indexColumn cls) := by
  intro columns
  have hbound : ∀ column ∈ columns, BoundColumn cls signature column :=
    resolvedColumns_bound h []
  have hindexValue : ((orderedIndexNames columns).map (indexColumn cls)).filter
      (fun column => !column.isVirtualIndex && !column.levels.isEmpty) = [] := by
    rw [List.filter_eq_nil_iff]
    intro column hcolumn
    obtain ⟨name, -, rfl⟩ := List.mem_map.mp hcolumn
    simp [indexColumn]
  have hindex : ((orderedIndexNames columns).map (indexColumn cls)).filter (·.isVirtualIndex) =
      (orderedIndexNames columns).map (indexColumn cls) := by
    rw [List.filter_eq_self]
    intro column hcolumn
    obtain ⟨name, -, rfl⟩ := List.mem_map.mp hcolumn
    rfl
  have hvalue : columns.filter (fun column => !column.isVirtualIndex && !column.levels.isEmpty) =
      columns := by
    rw [List.filter_eq_self]
    intro column hcolumn
    have hne := (hbound column hcolumn).levels_ne_nil
    simp [(hbound column hcolumn).notIndex, hne]
  have hvalueIndex : columns.filter (·.isVirtualIndex) = [] := by
    rw [List.filter_eq_nil_iff]
    intro column hcolumn
    simp [(hbound column hcolumn).notIndex]
  constructor
  · rw [RootScanColumns.valueColumns, bindDirectPrimitives]
    dsimp only
    rw [List.filter_append, List.filter_cons_of_neg (by simp [entryIdColumn]), hindexValue,
      List.nil_append]
    exact hvalue
  · rw [RootScanColumns.indexColumns, bindDirectPrimitives]
    dsimp only
    rw [List.filter_append, List.filter_cons_of_neg (by simp [entryIdColumn]), hindex]
    exact (congrArg _ hvalueIndex).trans (List.append_nil _)

/-- What is known of a relation that a selection is bound to. -/
structure Relation (cls : SelectedClass) (signature : String) (bind : RootScanColumns) : Prop where
  bound : ∀ column ∈ bind.valueColumns, BoundColumn cls signature column
  indexColumns_eq : bind.valueColumns ≠ [] → bind.indexColumns =
    (keepFirst String.toLower (getLines signature)).map (indexColumn cls)
  at_succ : ∀ k < bind.indexColumns.length, bind.columns[k + 1]? = bind.indexColumns[k]?

theorem bindDirectPrimitives_relation
    (h : ∀ path ∈ selection.primitivePaths, SelectedPath cls signature path) :
    Relation cls signature (bindDirectPrimitives cls logicalType selection) := by
  obtain ⟨hvalues, hindices⟩ := @bindDirectPrimitives_columns cls logicalType selection signature h
  have hbound := @resolvedColumns_bound cls logicalType signature selection.bindPrefix _ h []
  refine ⟨?_, fun hne => ?_, fun k hk => ?_⟩
  · rw [hvalues]
    exact hbound
  · rw [hvalues] at hne
    rw [hindices, orderedIndexNames_eq hne fun column hcolumn => (hbound column hcolumn).selected]
  · rw [hindices] at hk ⊢
    rw [bindDirectPrimitives]
    dsimp only
    rw [List.cons_append, List.getElem?_cons_succ, List.getElem?_append_left hk]

end

/-! ### Rows of a page -/

section

variable {cls : SelectedClass} {dictionary : Dictionary} {signature : String}
variable {column : RootScanColumn} {page : ReadResult}

theorem serializedPage_rows {entry : UInt64} {indexDepth : Nat}
    {values : List RootPrimitiveValue} {flatIndices : List Int} (hrows : page.rows ≠ [])
    (h : materializeSerializedResult column entry indexDepth values flatIndices = .ok page) :
    page.vectorNames = splitIndexSignature column.indexSignature ∧ ∀ row ∈ page.rows,
      row.indices.length = (splitIndexSignature column.indexSignature).length := by
  unfold materializeSerializedResult at h
  split at h
  · cases h
  dsimp only at h
  split at h
  · cases h
  rename_i hshape
  rw [Bool.or_eq_true, not_or, decide_eq_true_eq, decide_eq_true_eq, not_not, not_not] at hshape
  cases h
  refine ⟨if_neg fun hempty => hrows ?_, fun row hrow => ?_⟩
  · rw [List.isEmpty_iff.mp hempty]
    rfl
  · obtain ⟨⟨value, i⟩, hvalue, rfl⟩ := List.mem_map.mp hrow
    have hi : i < values.length := (List.mem_zipIdx' hvalue).1
    have hle : (i + 1) * indexDepth ≤ values.length * indexDepth :=
      Nat.mul_le_mul_right _ (by omega)
    rw [Nat.add_mul, Nat.one_mul] at hle
    rw [hshape.1, List.length_take, List.length_drop, hshape.2]
    dsimp only
    omega

theorem splitIndexSignature_eq {levels : List PathLevel}
    (named : ∀ level ∈ levels, level.name ≠ "") (h : CommaFree levels) :
    splitIndexSignature (indexSignature levels) = indexNames levels := by
  rw [splitIndexSignature, getLines_indexSignature named h, List.filter_eq_self]
  intro name hname
  obtain ⟨stem, hstem, rfl⟩ := indexNames_suffix named name hname
  rw [decide_eq_true_eq, ← String.toList_inj.ne, String.toList_append]
  simp

/-- A page with rows is one of a path with values. -/
theorem ColumnPage.hasValues (h : ColumnPage dictionary column page)
    (hbound : BoundColumn cls signature column) (hrows : page.rows ≠ []) :
    hasValues column.levels := by
  cases h with
  | cleared hcleared => exact absurd hcleared hrows
  | object agrees hreads hlimit hpage =>
    obtain ⟨row, hrow⟩ := List.exists_mem_of_ne_nil _ hrows
    obtain ⟨-, e, he, -⟩ := (hreads.page_rows hlimit hpage).2 row hrow
    exact ((mem_traversalEvents _ he).hasValues agrees).resolve_left fun hfault => hfault.1 e rfl
  | serialized hprimitive _ =>
    obtain ⟨leaf, hleaf, -, hkind⟩ := hbound.leaf
    refine ⟨leaf, hleaf, ?_⟩
    have hp := hprimitive leaf hleaf
    unfold PathLevel.hasLeaf
    cases ha : leaf.fixedArray with
    | some array => exact hp
    | none =>
      have hc : leaf.isContainer = false := by
        rw [ha] at hkind
        exact hkind.resolve_left Bool.false_ne_true
      simp only [hc, Bool.false_eq_true, if_false, hp, Bool.true_or]

/-- Rows of a path whose loops are counted once have the path's names, and its indices. -/
theorem ColumnPage.rows_eq (h : ColumnPage dictionary column page)
    (hbound : BoundColumn cls signature column) (hrows : page.rows ≠ [])
    (hcomma : CommaFree column.levels) (hsingle : ∀ level ∈ column.levels, level.SingleLoop) :
    page.vectorNames = indexNames column.levels ∧
      ∀ row ∈ page.rows, row.indices.length = indexDepth column.levels := by
  cases h with
  | cleared hcleared => exact absurd hcleared hrows
  | object _ hreads hlimit hpage =>
    obtain ⟨hnames, hlengths⟩ := hreads.page_rows hlimit hpage
    rw [← indexNames_eq hsingle] at hnames hlengths
    rw [length_indexNames] at hlengths
    exact ⟨hnames, fun row hrow => (hlengths row hrow).1⟩
  | serialized _ hresult =>
    obtain ⟨hnames, hlengths⟩ := serializedPage_rows hrows hresult
    rw [hbound.signature_eq, splitIndexSignature_eq hbound.named hcomma] at hnames hlengths
    rw [length_indexNames] at hlengths
    exact ⟨hnames, hlengths⟩

end

/-! ### Resolving an index column -/

/-- A name is found at its own position. -/
theorem findIndexPosition_eq {levels : List PathLevel}
    (named : ∀ level ∈ levels, level.name ≠ "") (hdistinct : DistinctNames levels)
    {result : ReadResult} (hnames : result.vectorNames = indexNames levels) {k : Nat}
    (hk : k < (indexNames levels).length) {row : Option Nat}
    (hrow : ∀ r ∈ row, k < ((result.rows.map (·.indices)).getD r []).length) :
    findIndexPosition result (withoutIndexSuffix (indexNames levels)[k]) row = some k := by
  have hnodup : (indexNames levels).Nodup := List.Nodup.of_map _ hdistinct
  rw [findIndexPosition, hnames]
  apply findSome?_zipIdx hk
  · intro i hi
    dsimp only
    rw [if_neg]
    rintro ⟨hname, -⟩
    have hsame := withoutIndexSuffix_injective named (List.getElem_mem (by omega))
      (List.getElem_mem hk) hname
    have := (List.Nodup.getElem_inj_iff hnodup).mp hsame
    omega
  · dsimp only
    rw [if_pos ⟨rfl, hrow⟩]

/-- The source of an index column is the first column that is not skipped. -/
theorem findCachedIndexSource_eq {cls : SelectedClass} {signature : String}
    {bind : RootScanColumns} (hrelation : Relation cls signature bind)
    {results : List ReadResult} {dictionary : Dictionary}
    (hpage : RelationPage dictionary bind results) {k : Nat} {name : String}
    (hk : bind.columns[k + 1]? = some (indexColumn cls name)) {row : Option Nat} {source : Nat}
    {result : ReadResult} (hsource : results[source]? = some result) (hrows : result.rows ≠ [])
    (hrow : ∀ r ∈ row, r < result.rows.length)
    (hbefore : ∀ i < source, ∀ skipped, results[i]? = some skipped →
      skipped.rows = [] ∨ ∃ r ∈ row, skipped.rows.length ≤ r) {position : Nat}
    (hposition : findIndexPosition result (withoutIndexSuffix name) row = some position) :
    findCachedIndexSource bind results (k + 1) row = some (source, position) := by
  have hlt : source < bind.columns.length :=
    lt_of_lt_of_le (List.getElem?_eq_some_iff.mp hsource).1 hpage.length_le
  have hcolumn : bind.columns[source]? = some bind.columns[source] := List.getElem?_eq_getElem hlt
  have hbound := hrelation.bound _ (hpage.column hcolumn hsource hrows).1
  have hlevels : bind.columns[source].levels.isEmpty = false := by
    simpa [List.isEmpty_iff] using hbound.levels_ne_nil
  have hkept : (row.any fun r => decide (result.rows.length ≤ r)) = false := by
    cases row with
    | none => rfl
    | some r =>
      have := hrow r rfl
      simpa using this
  rw [findCachedIndexSource]
  simp only [hk]
  apply findSome?_zipIdx hlt
  · intro i hi
    dsimp only
    split
    · rfl
    · cases hresult : results[i]? with
      | none => rfl
      | some skipped =>
        dsimp only
        rw [if_pos]
        rcases hbefore i hi skipped hresult with hempty | ⟨r, hr, hle⟩
        · rw [hempty]
          rfl
        · cases hr
          simp [hle]
  · have hempty : result.rows.isEmpty = false := by simpa [List.isEmpty_iff] using hrows
    simp only [hbound.notIndex, hlevels, hbound.rootClassName_eq, indexColumn, bne_self_eq_false,
      Bool.or_self, Bool.false_eq_true, if_false, hsource, hempty, hkept, hposition,
      Option.map_some]

/-- The first column that has a row. -/
theorem rowTuple_eq_some {results : List ReadResult} {elem : Nat} {tuple : List Int}
    (h : rowTuple results elem = some tuple) :
    ∃ (source : Nat) (result : ReadResult) (row : ReadRow),
      results[source]? = some result ∧ result.rows[elem]? = some row ∧ row.indices = tuple ∧
        ∀ i < source, ∀ skipped, results[i]? = some skipped → skipped.rows.length ≤ elem := by
  rw [rowTuple, List.findSome?_eq_some_iff] at h
  obtain ⟨before, result, after, rfl, hresult, hbefore⟩ := h
  obtain ⟨row, hrow, rfl⟩ := Option.map_eq_some_iff.mp hresult
  refine ⟨before.length, result, row, by simp, hrow, rfl, fun i hi skipped hskipped => ?_⟩
  rw [List.getElem?_append_left hi] at hskipped
  have hnone := hbefore skipped (List.mem_of_getElem? hskipped)
  rw [Option.map_eq_none_iff, List.getElem?_eq_none_iff] at hnone
  exact hnone

section

variable {cls : SelectedClass} {dictionary : Dictionary} {signature : String}
variable {bind : RootScanColumns}

/-- The names of a path identify the indices of its rows. -/
structure IndexNamesOk (levels : List PathLevel) : Prop where
  commaFree : CommaFree levels
  distinct : DistinctNames levels
  singleLoop : ∀ level ∈ levels, level.SingleLoop

/-- The index columns of a path whose names are all right are its index names. -/
theorem Relation.indexColumns_names (h : Relation cls signature bind) {column : RootScanColumn}
    (hcolumn : column ∈ bind.valueColumns) (hok : IndexNamesOk column.levels) :
    bind.indexColumns = (indexNames column.levels).map (indexColumn cls) := by
  have hbound := h.bound column hcolumn
  rw [h.indexColumns_eq (List.ne_nil_of_mem hcolumn), ← hbound.selected, hbound.signature_eq,
    getLines_indexSignature hbound.named hok.commaFree, keepFirst_eq_self hok.distinct]

/-- A row's index column shows the index at its position. -/
theorem Relation.resolves (h : Relation cls signature bind)
    (hok : ∀ column ∈ bind.valueColumns, hasValues column.levels → IndexNamesOk column.levels)
    {page : CachedPage} (hpage : RelationPage dictionary bind page.results)
    (hsources : SourcesOf bind page) {elem : Nat} {tuple : List Int}
    (htuple : rowTuple page.results elem = some tuple) :
    tuple.length = bind.indexColumns.length ∧ ∀ k < tuple.length,
      (∃ source, findCachedIndexSource bind page.results (k + 1) (some elem) =
        some (source, k)) ∧
      resolveCachedIndexValue bind page (k + 1) elem = tuple[k]? := by
  -- Every result with rows has the same names, those of the index columns.
  have hrows {i : Nat} {result : ReadResult} (hresult : page.results[i]? = some result)
      (hne : result.rows ≠ []) : ∃ levels, (∀ level ∈ levels, level.name ≠ "") ∧
        DistinctNames levels ∧ bind.indexColumns = (indexNames levels).map (indexColumn cls) ∧
        result.vectorNames = indexNames levels ∧
        ∀ row ∈ result.rows, row.indices.length = (indexNames levels).length := by
    have hlt := lt_of_lt_of_le (List.getElem?_eq_some_iff.mp hresult).1 hpage.length_le
    obtain ⟨hmem, hcolumn⟩ := hpage.column (List.getElem?_eq_getElem hlt) hresult hne
    have hbound := h.bound _ hmem
    have hnames := hok _ hmem (hcolumn.hasValues hbound hne)
    obtain ⟨hvector, hlengths⟩ :=
      hcolumn.rows_eq hbound hne hnames.commaFree hnames.singleLoop
    rw [← length_indexNames] at hlengths
    exact ⟨_, hbound.named, hnames.distinct, h.indexColumns_names hmem hnames, hvector, hlengths⟩
  have hposition {i : Nat} {result : ReadResult} (hresult : page.results[i]? = some result)
      (hne : result.rows ≠ []) {k : Nat} (hk : k < bind.indexColumns.length) {row : Option Nat}
      (hrow : ∀ r ∈ row, r < result.rows.length) :
      ∃ name, bind.columns[k + 1]? = some (indexColumn cls name) ∧
        findIndexPosition result (withoutIndexSuffix name) row = some k := by
    obtain ⟨levels, named, hdistinct, hindices, hvector, hlengths⟩ := hrows hresult hne
    have hklevels : k < (indexNames levels).length := by
      rwa [hindices, List.length_map] at hk
    refine ⟨(indexNames levels)[k], ?_, ?_⟩
    · rw [h.at_succ k hk, hindices, List.getElem?_map, List.getElem?_eq_getElem hklevels]
      rfl
    · refine findIndexPosition_eq named hdistinct hvector hklevels fun r hr => ?_
      have hr := hrow r hr
      rw [List.getD_eq_getElem?_getD, List.getElem?_map, List.getElem?_eq_getElem hr]
      exact lt_of_lt_of_eq hklevels (hlengths _ (List.getElem_mem hr)).symm
  obtain ⟨source, result, row, hsource, hrow, rfl, hbefore⟩ := rowTuple_eq_some htuple
  have hne : result.rows ≠ [] := by
    rintro hnil
    rw [hnil] at hrow
    cases hrow
  obtain ⟨levels, -, -, hindices, -, hlengths⟩ := hrows hsource hne
  have hlength : row.indices.length = bind.indexColumns.length := by
    rw [hindices, List.length_map]
    exact hlengths row (List.mem_of_getElem? hrow)
  refine ⟨hlength, fun k hk => ?_⟩
  have hfound : findCachedIndexSource bind page.results (k + 1) (some elem) = some (source, k) := by
    obtain ⟨name, hname, hfind⟩ := @hposition _ _ hsource hne k (hlength ▸ hk) (some elem)
      (fun r hr => by
        cases hr
        exact (List.getElem?_eq_some_iff.mp hrow).1)
    refine findCachedIndexSource_eq h hpage hname hsource hne (fun r hr => by
      cases hr
      exact (List.getElem?_eq_some_iff.mp hrow).1) (fun i hi skipped hskipped => ?_) hfind
    exact .inr ⟨elem, rfl, hbefore i hi skipped hskipped⟩
  refine ⟨⟨source, hfound⟩, ?_⟩
  have hindex : indexAt page.results (source, k) elem = row.indices[k]? := by
    simp only [indexAt, hsource, hrow, Option.bind_eq_bind, Option.bind_some]
  have hsome : row.indices[k]? = some row.indices[k] := List.getElem?_eq_getElem hk
  -- The page's own source has the row's index too, if it has the row.
  have hown : ∀ own, page.indexSources.getD (k + 1) none = some own →
      indexAt page.results own elem = none ∨ indexAt page.results own elem = row.indices[k]? := by
    intro own hown
    rcases hsources with hnil | ⟨columnIds, hresolved⟩
    · rw [hnil] at hown
      cases hown
    -- It is the first result with rows, which is not behind the first with this row.
    generalize hfirst : page.results.findIdx (fun result => !result.rows.isEmpty) = first
    have hlt : first < page.results.length := by
      rw [← hfirst, List.findIdx_lt_length]
      exact ⟨result, List.mem_of_getElem? hsource, by simpa [List.isEmpty_iff] using hne⟩
    have hfirstRows : page.results[first].rows ≠ [] := by
      subst hfirst
      simpa [List.isEmpty_iff] using List.findIdx_getElem (w := hlt)
    have hempty : ∀ i < first, ∀ skipped, page.results[i]? = some skipped → skipped.rows = [] := by
      intro i hi skipped hskipped
      subst hfirst
      have := List.not_of_lt_findIdx hi
      rw [List.getElem?_eq_some_iff] at hskipped
      obtain ⟨_, rfl⟩ := hskipped
      simpa [List.isEmpty_iff] using this
    have hfirst? := List.getElem?_eq_getElem hlt
    obtain ⟨name, hname, hfind⟩ := @hposition _ _ hfirst? hfirstRows k (hlength ▸ hk) none
      (fun r hr => by cases hr)
    have hsourceNone : findCachedIndexSource bind page.results (k + 1) none = some (first, k) :=
      findCachedIndexSource_eq h hpage hname hfirst? hfirstRows (fun r hr => by cases hr)
        (fun i hi skipped hskipped => .inl (hempty i hi skipped hskipped)) hfind
    have howned : own = (first, k) := by
      rw [hresolved, List.getD_eq_getElem?_getD, resolveIndexSources, List.getElem?_map,
        List.getElem?_zipIdx, hname] at hown
      simp only [Option.map_some, Option.getD_some, Nat.zero_add, indexColumn, Bool.true_and] at hown
      split at hown
      · exact Option.some.inj (hown.symm.trans hsourceNone)
      · cases hown
    subst howned
    cases hat : page.results[first].rows[elem]? with
    | none =>
      left
      simp only [indexAt, hfirst?, hat, Option.bind_eq_bind, Option.bind_some, Option.bind_none]
    | some own =>
      right
      have hle : first ≤ source := by
        by_contra hlt'
        exact hne (hempty source (by omega) result hsource)
      have hge : source ≤ first := by
        by_contra hlt'
        have hshort := hbefore first (by omega) _ hfirst?
        rw [← List.getElem?_eq_none_iff] at hshort
        cases hshort.symm.trans hat
      rw [show first = source by omega]
      exact hindex
  rw [resolveCachedIndexValue, hfound]
  cases hown' : page.indexSources.getD (k + 1) none with
  | none =>
    rw [Option.bind_none, Option.bind_some, hindex]
  | some own =>
    rw [Option.bind_some]
    rcases hown own hown' with hnone | heq
    · rw [hnone, Option.bind_some, hindex]
    · rw [heq, hsome]

/-- What the names of a relation have to be: right, or at least as many as the indices where
    nothing is read. -/
def NamedForRows (bind : RootScanColumns) : Prop :=
  ∀ column ∈ bind.valueColumns,
    (hasValues column.levels → IndexNamesOk column.levels) ∧
      (¬ hasValues column.levels → bind.indexColumns.length = indexDepth column.levels)

/-- With the right names the index columns show the tuple of a row. -/
theorem Relation.shownIndices_eq (h : Relation cls signature bind)
    (hok : ∀ column ∈ bind.valueColumns, hasValues column.levels → IndexNamesOk column.levels)
    {page : CachedPage} (hpage : RelationPage dictionary bind page.results)
    (hsources : SourcesOf bind page) {elem : Nat} {tuple : List Int}
    (htuple : rowTuple page.results elem = some tuple) :
    shownIndices bind page elem = tuple.map some := by
  obtain ⟨hlength, hresolves⟩ := h.resolves hok hpage hsources htuple
  refine List.ext_getElem (by simp [shownIndices, hlength]) fun k hk _ => ?_
  have hlt : k < tuple.length := by simpa [shownIndices, hlength] using hk
  simp only [shownIndices, List.getElem_map, List.getElem_range]
  rw [(hresolves k hlt).2, List.getElem?_eq_getElem hlt]

/-- A row of a page is a row of its column. -/
theorem EntryPage.tuple {entry : List ReadResult} {offset : Nat} {page : CachedPage}
    (h : EntryPage dictionary bind entry offset page) {result : ReadResult} {elem : Nat}
    {row : ReadRow} (hresult : result ∈ page.results) (hrow : result.rows[elem]? = some row) :
    ∃ full ∈ entry, (tuples full)[offset + elem]? = some row.indices := by
  obtain ⟨i, hlt, rfl⟩ := List.mem_iff_getElem.mp hresult
  have hne : page.results[i].rows ≠ [] := by
    intro hnil
    rw [hnil] at hrow
    cases hrow
  obtain ⟨full, hfull, more, hmore⟩ := h.rows (List.getElem?_eq_getElem hlt) hne
  refine ⟨full, List.mem_of_getElem? hfull, ?_⟩
  have hat : (tuples page.results[i])[elem]? = some row.indices := by
    rw [tuples, List.getElem?_map, hrow, Option.map_some]
  rw [← List.getElem?_drop, ← hmore,
    List.getElem?_append_left (List.getElem?_eq_some_iff.mp hat).1, hat]

/-- The tuple of a row is that of a column which has the row. -/
theorem EntryPage.rowTuple {entry : List ReadResult} {offset : Nat} {page : CachedPage}
    (h : EntryPage dictionary bind entry offset page) {elem : Nat} {tuple : List Int}
    (htuple : rowTuple page.results elem = some tuple) :
    ∃ full ∈ entry, (tuples full)[offset + elem]? = some tuple := by
  obtain ⟨source, result, row, hresult, hrow, rfl, -⟩ := rowTuple_eq_some htuple
  exact h.tuple (List.mem_of_getElem? hresult) hrow

theorem rowTuple_isSome {results : List ReadResult} {result : ReadResult} {elem : Nat}
    {row : ReadRow} (hresult : result ∈ results) (hrow : result.rows[elem]? = some row) :
    ∃ tuple, rowTuple results elem = some tuple := by
  rw [← Option.isSome_iff_exists, rowTuple, List.findSome?_isSome_iff]
  exact ⟨result, hresult, by rw [hrow]; rfl⟩

/-- No column has a tuple in two rows. -/
theorem ObjectRows.nodup {entry : List ReadResult} (h : ObjectRows dictionary bind entry) :
    ∀ full ∈ entry, (tuples full).Nodup := by
  intro full hfull
  by_cases hne : full.rows = []
  · rw [tuples, hne]
    exact List.nodup_nil
  · obtain ⟨i, hlt, rfl⟩ := List.mem_iff_getElem.mp hfull
    obtain ⟨mem, object, entryId, -, hcolumn⟩ := h.column
    have hi := lt_of_lt_of_le hlt h.length_le
    exact rows_nodup (hcolumn (List.getElem?_eq_getElem hi) (List.getElem?_eq_getElem hlt) hne).2

/-- Different rows of columns that line up have different tuples: the later one's column has
    the earlier row too. -/
theorem LinedUp.tuple_ne {entry : List ReadResult} (h : LinedUp entry)
    (hnodup : ∀ full ∈ entry, (tuples full).Nodup) {full other : ReadResult}
    (hfull : full ∈ entry) (hother : other ∈ entry) {r r' : Nat} {tuple tuple' : List Int}
    (hr : (tuples full)[r]? = some tuple) (hr' : (tuples other)[r']? = some tuple')
    (hlt : r < r') : tuple ≠ tuple' := by
  have hlt' := (List.getElem?_eq_some_iff.mp hr').1
  have hsame : (tuples other)[r]? = some tuple := by
    have hat : (tuples other)[r]? = some (tuples other)[r] := List.getElem?_eq_getElem (by omega)
    rw [hat, h full hfull other hother r _ _ hr hat]
  rintro rfl
  have := (List.getElem?_inj hlt' (hnodup other hother)).mp (hr'.trans hsame.symm)
  omega

theorem Relation.identifies (h : Relation cls signature bind) (hnamed : NamedForRows bind)
    (hlined : ColumnsLineUp dictionary bind) : IdentifiesRows dictionary bind := by
  have hok := fun column hcolumn => (hnamed column hcolumn).1
  have hcount : ∀ column ∈ bind.valueColumns,
      bind.indexColumns.length = indexDepth column.levels := by
    intro column hcolumn
    by_cases hvalues : hasValues column.levels
    · rw [h.indexColumns_names hcolumn (hok column hcolumn hvalues), List.length_map,
        length_indexNames]
    · exact (hnamed column hcolumn).2 hvalues
  refine ⟨hcount, fun hpage hsources _ _ htuple => ?_, ?_, ?_⟩
  · obtain ⟨hlength, hresolves⟩ := h.resolves hok hpage hsources htuple
    exact ⟨fun column hcolumn => hlength.trans (hcount column hcolumn), hresolves⟩
  · intro entry offset page hentry hpage result elem row hresult hrow
    obtain ⟨tuple, htuple⟩ := rowTuple_isSome hresult hrow
    obtain ⟨full, hfull, hat⟩ := hpage.rowTuple htuple
    obtain ⟨own, hown, hatOwn⟩ := hpage.tuple hresult hrow
    rw [h.shownIndices_eq hok hpage.relation hpage.sources htuple,
      hlined entry hentry full hfull own hown _ _ _ hat hatOwn]
  · intro entry offset offset' page page' hentry hpage hpage' elem elem' tuple tuple' htuple htuple'
      hrows
    obtain ⟨full, hfull, hat⟩ := hpage.rowTuple htuple
    obtain ⟨other, hother, hat'⟩ := hpage'.rowTuple htuple'
    rw [h.shownIndices_eq hok hpage.relation hpage.sources htuple,
      h.shownIndices_eq hok hpage'.relation hpage'.sources htuple']
    intro hshown
    have hsame : tuple = tuple' := List.map_injective_iff.mpr (Option.some_injective _) hshown
    rcases Nat.lt_or_gt_of_ne hrows with hlt | hlt
    · exact (hlined entry hentry).tuple_ne hentry.nodup hfull hother hat hat' hlt hsame
    · exact (hlined entry hentry).tuple_ne hentry.nodup hother hfull hat' hat hlt hsame.symm

/-! ### Names that do not identify -/

/-- A path with values has a page of one row. -/
theorem exists_objectPage {levels : List PathLevel} (hvalues : hasValues levels)
    (hdescends : ∀ level ∈ levels.dropLast, level.klass.isSome = true)
    (hcollections : ∀ level ∈ levels, level.isContainer = true →
      ∃ klass, level.klass = some klass ∧ (dictionary.info klass).valueClass.isSome = true) :
    ∃ (mem : RootMemory) (root : Address) (later : List TraversalEvent)
      (cursor next : OffsetValueCursor) (page : ReadResult), mem.Agrees dictionary ∧
        cursor.Reads mem root levels 0 later ∧
        cursor.readPage mem 1 = .ok (true, page, next) ∧ page.rows.length = 1 := by
  obtain ⟨last, hlast, hleaf⟩ := hvalues
  have hne : levels ≠ [] := by
    rintro rfl
    cases hlast
  rw [List.getLast?_eq_getLast_of_ne_nil hne] at hlast
  cases hlast
  have hfirst := @traversalEvents_of_hasLeaf dictionary (reach levels + 1) levels hne hleaf
    hdescends hcollections (reach levels + 1) [] []
  obtain ⟨e, tail, hevents⟩ := hfirst (Int.lt_succ _) (Int.lt_succ _)
  have hroot : (reach levels + 1 : Address) ≠ 0 := by
    have hreach := reach_nonneg levels
    exact Int.ne_of_gt (show (0 : Int) < reach levels + 1 by omega)
  have hopen : (OffsetValueCursor.openEntry (reach levels + 1) levels 0).complete = false := by
    simp [OffsetValueCursor.openEntry, hroot, hne]
  have hreads := @openEntry_reads (constantMemory dictionary (reach levels + 1)) _ _ _ hopen
  have hread := @OffsetValueCursor.readPage_open (constantMemory dictionary (reach levels + 1))
    _ hopen 1 (Nat.le_refl 1)
  rw [hreads.runTraversal_eq (Nat.le_refl 1), hevents, Feed.feed_row rfl, Feed.feed_of_full rfl]
    at hread
  exact ⟨_, _, _, _, _, _, constantMemory_agrees dictionary _, hreads, hread, rfl⟩

theorem findIndexPosition_some {result : ReadResult} {name : String} {row : Option Nat}
    {position : Nat} (h : findIndexPosition result name row = some position) :
    ∃ vectorName, result.vectorNames[position]? = some vectorName ∧
      withoutIndexSuffix vectorName = name := by
  rw [findIndexPosition, List.findSome?_eq_some_iff] at h
  obtain ⟨before, ⟨vectorName, i⟩, after, hzip, hfound, -⟩ := h
  dsimp only at hfound
  split at hfound
  next hname =>
    cases hfound
    refine ⟨vectorName, ?_, hname.1⟩
    have hmem : (vectorName, position) ∈ result.vectorNames.zipIdx := by
      rw [hzip]
      exact List.mem_append_right _ List.mem_cons_self
    obtain ⟨hlt, heq⟩ := List.mem_zipIdx' hmem
    rw [List.getElem?_eq_getElem hlt, heq]
  next => cases hfound

/-- The source of an index column is a position with the column's name, of a result with rows. -/
theorem findCachedIndexSource_some {results : List ReadResult} {columnId source position : Nat}
    {row : Option Nat}
    (h : findCachedIndexSource bind results columnId row = some (source, position)) :
    ∃ column result, bind.columns[columnId]? = some column ∧ result ∈ results ∧
      result.rows ≠ [] ∧
      findIndexPosition result (withoutIndexSuffix column.name) row = some position := by
  unfold findCachedIndexSource at h
  split at h
  next => cases h
  next column hcolumn =>
    rw [List.findSome?_eq_some_iff] at h
    obtain ⟨-, ⟨candidate, i⟩, -, -, hfound, -⟩ := h
    dsimp only at hfound
    split at hfound
    next => cases hfound
    next =>
      split at hfound
      next => cases hfound
      next result hresult =>
        split at hfound
        next => cases hfound
        next hrows =>
          obtain ⟨found, hposition, heq⟩ := Option.map_eq_some_iff.mp hfound
          cases heq
          refine ⟨column, result, hcolumn, List.mem_of_getElem? hresult, fun hnil => hrows ?_,
            hposition⟩
          rw [hnil]
          rfl

/-- The page in which one column has a result. -/
def singlePage (columns position : Nat) (page : ReadResult) : List ReadResult :=
  (List.replicate columns {}).set position page

theorem mem_singlePage {columns position : Nat} {page result : ReadResult}
    (h : result ∈ singlePage columns position page) (hrows : result.rows ≠ []) :
    result = page := by
  rcases List.mem_or_eq_of_mem_set h with h | h
  · rw [(List.mem_replicate.mp h).2] at hrows
    exact absurd rfl hrows
  · exact h

theorem rowTuple_singlePage {columns position : Nat} (hposition : position < columns)
    {page : ReadResult} {row : ReadRow} (hrow : page.rows[0]? = some row) :
    rowTuple (singlePage columns position page) 0 = some row.indices := by
  rw [rowTuple, List.findSome?_eq_some_iff]
  refine ⟨(singlePage columns position page).take position, page,
    (singlePage columns position page).drop (position + 1), ?_, by rw [hrow, Option.map_some], ?_⟩
  · have hlt : position < (singlePage columns position page).length := by
      simpa [singlePage] using hposition
    have hat : (singlePage columns position page)[position] = page := by
      simp [singlePage]
    conv_lhs => rw [← List.take_append_drop position (singlePage columns position page),
      List.drop_eq_getElem_cons hlt, hat]
  · intro result hresult
    rw [singlePage, List.take_set, List.set_eq_of_length_le (by simp)] at hresult
    rw [(List.mem_replicate.mp (List.mem_of_mem_take hresult)).2]
    rfl

/-- Columns that show every value's own indices have the same tuple wherever they have a row:
    read as a single page, the object has the same index columns for all of them. -/
theorem Relation.linesUp (hidentifies : IdentifiesRows dictionary bind) :
    ColumnsLineUp dictionary bind := by
  intro entry hentry
  have hpage : EntryPage dictionary bind entry 0 ⟨0, 0, "", entry, []⟩ := by
    refine ⟨⟨hentry.length_le, fun {i} column result hcolumn hresult hrows => ?_⟩, .inl rfl,
      fun {i} result hresult _ => ⟨result, hresult, List.prefix_refl _⟩⟩
    obtain ⟨mem, object, entryId, agrees, hread⟩ := hentry.column
    obtain ⟨hvalue, hcollect⟩ := hread hcolumn hresult hrows
    obtain ⟨later, cursor, next, hreads, hwhole⟩ := readPage_whole hrows hcollect
    exact ⟨hvalue, .object agrees hreads (Nat.le_add_left 1 _) hwhole⟩
  have hshown : ∀ full ∈ entry, ∀ (r : Nat) (tuple : List Int), (tuples full)[r]? = some tuple →
      shownIndices bind ⟨0, 0, "", entry, []⟩ r = tuple.map some := by
    intro full hfull r tuple htuple
    rw [tuples, List.getElem?_map, Option.map_eq_some_iff] at htuple
    obtain ⟨row, hrow, rfl⟩ := htuple
    exact hidentifies.shows hentry hpage hfull hrow
  intro full hfull other hother r tuple tuple' htuple htuple'
  have hsame := (hshown full hfull r tuple htuple).symm.trans (hshown other hother r tuple' htuple')
  exact List.map_injective_iff.mpr (Option.some_injective _) hsame

/-- A single column lines up with itself. -/
theorem columnsLineUp_of_single (h : bind.valueColumns.length = 1) :
    ColumnsLineUp dictionary bind := by
  obtain ⟨single, hsingle⟩ := List.length_eq_one_iff.mp h
  intro entry hentry
  obtain ⟨mem, object, entryId, -, hread⟩ := hentry.column
  have hcollect : ∀ full ∈ entry, full.rows ≠ [] →
      collectDirect mem object single.levels (-1) entryId {} = .ok full := by
    intro full hfull hne
    obtain ⟨i, hlt, rfl⟩ := List.mem_iff_getElem.mp hfull
    obtain ⟨hvalue, hcollect⟩ := hread
      (List.getElem?_eq_getElem (lt_of_lt_of_le hlt hentry.length_le))
      (List.getElem?_eq_getElem hlt) hne
    rw [hsingle, List.mem_singleton] at hvalue
    rwa [hvalue] at hcollect
  have hrows : ∀ full : ReadResult, ∀ (r : Nat) (tuple : List Int),
      (tuples full)[r]? = some tuple → full.rows ≠ [] := by
    intro full r tuple htuple hnil
    rw [tuples, hnil] at htuple
    cases htuple
  intro full hfull other hother r tuple tuple' htuple htuple'
  have hsame := (hcollect full hfull (hrows full r tuple htuple)).symm.trans
    (hcollect other hother (hrows other r tuple' htuple'))
  rw [← Except.ok.inj hsame, htuple] at htuple'
  exact Option.some.inj htuple'

/-- Columns that identify rows have the right names. -/
theorem Relation.named (h : Relation cls signature bind)
    (hidentifies : IdentifiesRows cls.dictionary bind) : NamedForRows bind := by
  intro column hcolumn
  refine ⟨fun hvalues => ?_, fun _ => hidentifies.count column hcolumn⟩
  have hbound := h.bound column hcolumn
  have hcount := hidentifies.count column hcolumn
  obtain ⟨hdescends, hcollections⟩ := hbound.chain
  obtain ⟨mem, root, later, cursor, next, page, agrees, hreads, hread, hone⟩ :=
    exists_objectPage hvalues hdescends hcollections
  obtain ⟨hvector, hlengths⟩ := hreads.page_rows (Nat.le_refl 1) hread
  have hrow : page.rows[0]? = some page.rows[0] := List.getElem?_eq_getElem (by omega)
  have hlengthRow := (hlengths _ (List.mem_of_getElem? hrow)).1
  -- The page with this result alone.
  obtain ⟨position, hlt, hat⟩ := List.mem_iff_getElem.mp (List.mem_filter.mp hcolumn).1
  have hpage : RelationPage cls.dictionary bind (singlePage bind.columns.length position page) := by
    refine ⟨by simp [singlePage], fun {i} other result hother hresult hrows => ?_⟩
    obtain rfl := mem_singlePage (List.mem_of_getElem? hresult) hrows
    have hi : i = position := by
      by_contra hne
      rw [singlePage, List.getElem?_set_ne (fun heq => hne heq.symm)] at hresult
      rw [(List.mem_replicate.mp (List.mem_of_getElem? hresult)).2] at hrows
      exact hrows rfl
    subst hi
    rw [List.getElem?_eq_getElem hlt, hat] at hother
    cases hother
    exact ⟨hcolumn, .object agrees hreads (Nat.le_refl 1) hread⟩
  have hresolves := @hidentifies.resolves
    ⟨0, 0, "", singlePage bind.columns.length position page, []⟩ hpage (.inl rfl) 0 _
    (rowTuple_singlePage hlt hrow)
  have hdepth := hresolves.1 column hcolumn
  have hsingle : ∀ level ∈ column.levels, level.SingleLoop :=
    (length_flatMap_levelIndexNames_iff column.levels).mp (hlengthRow.symm.trans hdepth)
  rw [← indexNames_eq hsingle] at hvector hlengthRow
  have hcomma : CommaFree column.levels := by
    intro name hname
    obtain ⟨k, hk, rfl⟩ := List.mem_iff_getElem.mp hname
    obtain ⟨source, hsource⟩ := (hresolves.2 k (hlengthRow ▸ hk)).1
    obtain ⟨indexed, result, hindexed, hresult, hrows, hfind⟩ := findCachedIndexSource_some hsource
    obtain rfl := mem_singlePage hresult hrows
    obtain ⟨vectorName, hvectorName, hsuffix⟩ := findIndexPosition_some hfind
    rw [hvector, List.getElem?_eq_getElem hk] at hvectorName
    cases hvectorName
    obtain ⟨stem, hstem, hname⟩ := indexNames_suffix hbound.named _ hname
    rw [hname, withoutIndexSuffix_append hstem] at hsuffix
    rw [hname]
    refine comma_not_mem_of_suffix hsuffix.symm ?_
    have hkIndex : k < bind.indexColumns.length := by
      rw [hcount, ← length_indexNames]
      exact hk
    rw [h.at_succ k hkIndex] at hindexed
    have hmem := List.mem_of_getElem? hindexed
    rw [h.indexColumns_eq (List.ne_nil_of_mem hcolumn)] at hmem
    obtain ⟨bound, hboundName, rfl⟩ := List.mem_map.mp hmem
    exact comma_not_mem_getLines (mem_keepFirst hboundName)
  refine ⟨hcomma, ?_, hsingle⟩
  rw [← orderedIndexNames_length_iff hbound.named hcomma, ← hcount,
    h.indexColumns_eq (List.ne_nil_of_mem hcolumn), List.length_map, ← hbound.selected,
    hbound.signature_eq]

end

/-- **Index columns of a relation.** The relation that a selected path is bound to has an index
    column for each index of a row, resolved to the index's own position, its values stand beside
    their own indices and its rows differ in an index column, exactly if the index names of every
    path with values have no commas, differ in more than case, and no level is a container and a
    fixed array at once, and the columns line up in every object. -/
theorem bindDirectPrimitives_identifies_iff (cls : SelectedClass)
    (logicalType : PathLevel → LogicalTypeId) {canonical : String} {fields : List String}
    {children : Option (List String)} {selection : SemanticPathSelection}
    (h : selectSemanticPath cls canonical fields children = .ok (some selection)) :
    IdentifiesRows cls.dictionary (bindDirectPrimitives cls logicalType selection) ↔
      NamedForRows (bindDirectPrimitives cls logicalType selection) ∧
        ColumnsLineUp cls.dictionary (bindDirectPrimitives cls logicalType selection) := by
  obtain ⟨signature, hselected⟩ := selectSemanticPath_selected h
  have hrelation : Relation cls signature (bindDirectPrimitives cls logicalType selection) :=
    bindDirectPrimitives_relation hselected
  constructor
  · intro hidentifies
    exact ⟨hrelation.named hidentifies, Relation.linesUp hidentifies⟩
  · rintro ⟨hnamed, hlined⟩
    exact hrelation.identifies hnamed hlined

/-! ### Nested vectors -/

/-- An event with `vector<vector<vector<int> > > x` and `vector<int> y`. -/
def nestedVectors : SelectedClass where
  name := "Event"
  klass := 0
  dictionary := {
    classes := [
      { name := "Event", size := 80
        members := some [
          { name := "x", typeName := "vector<vector<vector<int> > >", type := 500, offset := 8
            classPointer := some 1 },
          { name := "y", typeName := "vector<int>", type := 500, offset := 32
            classPointer := some 3 }] },
      { name := "vector<vector<vector<int> > >", size := 24, valueClass := some (some 2) },
      { name := "vector<vector<int> >", size := 24, valueClass := some (some 3) },
      { name := "vector<int>", size := 24, valueClass := some none }]
    getClass := fun _ => none }

/-- The two inner loops of three nested vectors share a column: there are two for three
    indices. -/
theorem nestedVectors_lose_column :
    ¬ ∀ (cls : SelectedClass) (logicalType : PathLevel → LogicalTypeId) (canonical : String)
        (fields : List String) (children : Option (List String))
        (selection : SemanticPathSelection),
      selectSemanticPath cls canonical fields children = .ok (some selection) →
        IdentifiesRows cls.dictionary (bindDirectPrimitives cls logicalType selection) := by
  intro h
  have hidentifies := h nestedVectors (fun _ => .integer) "/Event/x/value/value"
    ["x", "value", "value"] (some ["/Event/x/value/value/value"])
    ⟨"/Event/x/value/value/", ["/Event/x/value/value/value"], []⟩ (by decide +kernel)
  have hdepth : (bindDirectPrimitives nestedVectors (fun _ => .integer)
      ⟨"/Event/x/value/value/", ["/Event/x/value/value/value"], []⟩).valueColumns.map
        (fun column => indexDepth column.levels) = [3] := by
    decide +kernel
  have hcolumns : (bindDirectPrimitives nestedVectors (fun _ => .integer)
      ⟨"/Event/x/value/value/", ["/Event/x/value/value/value"], []⟩).indexColumns.length = 2 := by
    decide +kernel
  obtain ⟨column, hcolumn, hthree⟩ := List.mem_map.mp (hdepth ▸ List.mem_singleton_self 3)
  have hcount := hidentifies.count column hcolumn
  rw [hcolumns, hthree] at hcount
  cases hcount

theorem vector_identifies :
    IdentifiesRows nestedVectors.dictionary (bindDirectPrimitives nestedVectors (fun _ => .integer)
      ⟨"/Event/y/", ["/Event/y/value"], []⟩) := by
  have hnames : ∀ column ∈ (bindDirectPrimitives nestedVectors (fun _ => .integer)
      ⟨"/Event/y/", ["/Event/y/value"], []⟩).valueColumns,
        indexNames column.levels = ["y_idx"] ∧ ∀ level ∈ column.levels, level.SingleLoop := by
    decide +kernel
  have hcolumns : (bindDirectPrimitives nestedVectors (fun _ => .integer)
      ⟨"/Event/y/", ["/Event/y/value"], []⟩).indexColumns.length = 1 := by
    decide +kernel
  refine (bindDirectPrimitives_identifies_iff nestedVectors (fun _ => .integer)
    (show selectSemanticPath nestedVectors "/Event/y" ["y"] (some ["/Event/y/value"]) =
      .ok (some ⟨"/Event/y/", ["/Event/y/value"], []⟩) by decide +kernel)).mpr ⟨?_, columnsLineUp_of_single (by decide +kernel)⟩
  intro column hcolumn
  obtain ⟨hname, hsingle⟩ := hnames column hcolumn
  refine ⟨fun _ => ⟨?_, ?_, hsingle⟩, fun _ => ?_⟩
  · rw [CommaFree, hname]
    decide
  · rw [DistinctNames, hname]
    exact List.nodup_singleton _
  · rw [hcolumns, ← length_indexNames, hname]
    rfl

end RootLake.Direct

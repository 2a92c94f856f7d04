/-
  RootLake/Dataset/IndexStatistics.lean
  =====================================
  **The statistics `Build` writes are those of the entries.**

  The entry loop of `Build` feeds the accumulator of the active basket; what it was given is
  told apart by the ranges alone (`baskets_received`).  A basket row holds the counts and the
  extremes of the values of its entries, and where they start among the values of the file.
  The file row adds up the rows of its baskets (`index_statistics_exact`).
-/
import RootLake.Dataset.MetadataCount

namespace RootLake.Dataset

open Ieee Index Batch

/-! ### The rows of a path -/

/-- The columns of a basket row that are counted while the entries are read. -/
structure BasketStatisticsRow where
  entryBegin : UInt64
  entryEnd : UInt64
  flatValueBegin : Nat
  valueCount : Nat
  nullCount : Nat
  statistics : ValueStatistics
  bloomFilter : Option (List UInt8)

/-- The columns of a file row that are added up over its baskets. -/
structure FileStatisticsRow where
  valueCount : Nat
  nullCount : Nat
  basketCount : Nat
  statistics : ValueStatistics

section

variable {totalEntries : UInt64} (statisticsEnabled : Bool)

def IndexedBasket.row (flatValueBegin : Nat) (basket : IndexedBasket totalEntries) :
    BasketStatisticsRow where
  entryBegin := basket.range.entryBegin
  entryEnd := basket.range.entryEnd
  flatValueBegin := flatValueBegin
  valueCount := basket.basket.valueCount
  nullCount := basket.nullCount
  statistics := basket.basket.statistics
  bloomFilter := basket.basket.bloomFilter statisticsEnabled

/-- The basket loop of `Build`; `flatValueBegin` counts the values of the rows before. -/
def basketStatisticsRows (flatValueBegin : Nat) :
    List (IndexedBasket totalEntries) → List BasketStatisticsRow
  | [] => []
  | basket :: rest =>
      basket.row statisticsEnabled flatValueBegin ::
        basketStatisticsRows (flatValueBegin + basket.basket.valueCount) rest

/-- The counters of the file row: `total_values`, `file_null_count` and `actual_baskets`. -/
def fileStatisticsRow (baskets : List (IndexedBasket totalEntries)) : FileStatisticsRow where
  valueCount := baskets.foldl (fun total basket => total + basket.basket.valueCount) 0
  nullCount := baskets.foldl (fun total basket => total + basket.nullCount) 0
  basketCount := baskets.foldl (fun total _ => total + 1) 0
  statistics := fileStatistics (baskets.map (·.basket))

end

/-- What `Build` writes about the values of a path. -/
def IndexedPath.statisticsRows {indexCount : Nat} (path : IndexedPath indexCount) :
    Except IOException (List BasketStatisticsRow × FileStatisticsRow) :=
  match path.baskets with
  | .error e => .error e
  | .ok baskets =>
      .ok (basketStatisticsRows path.statisticsDoubleSafe 0 baskets, fileStatisticsRow baskets)

/-! ### What a basket received -/

section

variable {indexCount : Nat}

/-- The values of an entry, on whichever route it is read; `none` is an entry without an
    object. -/
def entryValues (answer : NumericEntry indexCount) :
    Except IOException (Option (List RootPrimitiveValue)) :=
  match answer with
  | .none _ => .ok none
  | answer =>
      match handedOver answer with
      | .error e => .error e
      | .ok values => .ok (some (values.map (·.value)))

/-- The values of an entry of a file; an entry that cannot be read has none. -/
def IndexedPath.valuesOf (path : IndexedPath indexCount) (entry : Nat) :
    Option (List RootPrimitiveValue) :=
  match path.numericEntry (UInt64.ofNat entry) with
  | .error _ => none
  | .ok answer =>
      match entryValues answer with
      | .error _ => none
      | .ok values => values

/-- The entry is read without an error. -/
def IndexedPath.Reads (path : IndexedPath indexCount) (entry : Nat) : Prop :=
  ∃ answer, path.numericEntry (UInt64.ofNat entry) = .ok answer ∧
    entryValues answer = .ok (path.valuesOf entry)

/-- The entries from `first` to `last`, those before `upTo` only. -/
def entriesBetween (first last upTo : Nat) : List Nat :=
  List.range' first (min last upTo - first)

theorem entriesBetween_inside {first last entry : Nat} (hfirst : first ≤ entry)
    (hlast : entry < last) :
    entriesBetween first last (entry + 1) = entriesBetween first last entry ++ [entry] := by
  have hnext : min last (entry + 1) - first = (min last entry - first) + 1 := by omega
  have hlastOne : first + (min last entry - first) = entry := by omega
  unfold entriesBetween
  rw [hnext, List.range'_1_concat, hlastOne]

theorem entriesBetween_outside {first last entry : Nat} (h : entry < first ∨ last ≤ entry) :
    entriesBetween first last (entry + 1) = entriesBetween first last entry := by
  have hsame : min last (entry + 1) - first = min last entry - first := by omega
  unfold entriesBetween
  rw [hsame]

/-- All the values of some entries, in their order. -/
def IndexedPath.valuesAt (path : IndexedPath indexCount) (entries : List Nat) :
    List RootPrimitiveValue :=
  entries.flatMap fun entry => (path.valuesOf entry).getD []

/-- How many of some entries have no object. -/
def IndexedPath.nullsAt (path : IndexedPath indexCount) (entries : List Nat) : Nat :=
  entries.countP fun entry => (path.valuesOf entry).isNone

theorem IndexedPath.valuesAt_append (path : IndexedPath indexCount) (entries : List Nat)
    (entry : Nat) : path.valuesAt (entries ++ [entry]) =
      path.valuesAt entries ++ (path.valuesOf entry).getD [] := by
  simp [IndexedPath.valuesAt]

theorem IndexedPath.nullsAt_append (path : IndexedPath indexCount) (entries : List Nat)
    (entry : Nat) : path.nullsAt (entries ++ [entry]) =
      path.nullsAt entries + if (path.valuesOf entry).isNone then 1 else 0 := by
  unfold IndexedPath.nullsAt
  rw [List.countP_append, List.countP_singleton]

/-- A basket that received the values of some entries and nothing else. -/
structure Received (path : IndexedPath indexCount) (basket : IndexedBasket path.totalEntries)
    (entries : List Nat) : Prop where
  accumulated : basket.basket = accumulate path.bloom path.statisticsDoubleSafe (path.valuesAt entries)
  nulls : basket.nullCount = path.nullsAt entries
  reads : ∀ entry ∈ entries, path.Reads entry

theorem accumulate_append (bloom : RootBloomBuilder) (enabled : Bool)
    (values more : List RootPrimitiveValue) :
    more.foldl (fun basket value => basket.add value enabled) (accumulate bloom enabled values) =
      accumulate bloom enabled (values ++ more) := by
  unfold accumulate
  rw [List.foldl_append]

/-- An entry that is added to a basket: its values, or one more entry without an object. -/
theorem addEntry_ok {enabled : Bool} {totalEntries : UInt64}
    {basket next : IndexedBasket totalEntries} {answer : NumericEntry indexCount}
    (h : basket.addEntry enabled answer = .ok next) :
    ∃ values, entryValues answer = .ok values ∧
      next = { basket with
        basket := (values.getD []).foldl (fun b v => b.add v enabled) basket.basket
        nullCount := basket.nullCount + if values.isNone then 1 else 0 } := by
  unfold IndexedBasket.addEntry at h
  unfold entryValues
  cases answer with
  | none leftover =>
    cases h
    exact ⟨none, rfl, rfl⟩
  | serializedValues delivered =>
    cases h
    refine ⟨some (delivered.map (·.value)), rfl, ?_⟩
    simp [List.foldl_map]
  | paged pages =>
    dsimp only at h ⊢
    cases hvalues : handedOver (.paged pages) with
    | error e =>
      rw [hvalues] at h
      cases h
    | ok values =>
      rw [hvalues] at h
      cases h
      refine ⟨some (values.map (·.value)), rfl, ?_⟩
      simp [List.foldl_map]

/-- **Step lemma**: a basket that takes an entry received it. -/
theorem Received.addEntry {path : IndexedPath indexCount}
    {basket next : IndexedBasket path.totalEntries} {entries : List Nat}
    (h : Received path basket entries) {entry : UInt64} {answer : NumericEntry indexCount}
    (hanswer : path.numericEntry entry = .ok answer)
    (hadd : basket.addEntry path.statisticsDoubleSafe answer = .ok next) :
    next.range = basket.range ∧ Received path next (entries ++ [entry.toNat]) := by
  obtain ⟨values, hvalues, rfl⟩ := addEntry_ok hadd
  have hof : path.valuesOf entry.toNat = values := by
    unfold IndexedPath.valuesOf
    rw [UInt64.ofNat_toNat, hanswer]
    dsimp only
    rw [hvalues]
  refine ⟨rfl, ?_, ?_, ?_⟩
  · dsimp only
    rw [path.valuesAt_append, ← accumulate_append, ← h.accumulated, hof]
  · dsimp only
    rw [path.nullsAt_append, ← h.nulls, hof]
  · intro e he
    rcases List.mem_append.mp he with he | he
    · exact h.reads e he
    · rw [List.mem_singleton.mp he]
      refine ⟨answer, ?_, ?_⟩
      · rw [UInt64.ofNat_toNat]
        exact hanswer
      · rw [hof]
        exact hvalues

/-- **Every basket received the entries of its range**, and nothing else. -/
theorem IndexedPath.baskets_received {path : IndexedPath indexCount}
    {baskets : List (IndexedBasket path.totalEntries)} (h : path.baskets = .ok baskets) :
    baskets.map (·.range) = path.ranges ∧
      ∀ basket ∈ baskets, Received path basket (entriesBetween basket.range.entryBegin.toNat
        basket.range.entryEnd.toNat path.totalEntries.toNat) := by
  refine path.baskets_keep (p := fun basket entry => Received path basket
    (entriesBetween basket.range.entryBegin.toNat basket.range.entryEnd.toNat entry)) ?_ ?_ ?_ h
  · constructor
    · intro basket entry hreceived hbefore
      rw [entriesBetween_outside (Or.inl hbefore)]
      exact hreceived
    · intro basket entry hreceived hafter
      rw [entriesBetween_outside (Or.inr hafter)]
      exact hreceived
  · intro range
    have hnone : entriesBetween range.entryBegin.toNat range.entryEnd.toNat 0 = [] := by
      unfold entriesBetween
      rw [Nat.min_zero, Nat.zero_sub]
      exact List.range'_zero
    dsimp only
    rw [hnone]
    exact ⟨rfl, rfl, fun entry hentry => absurd hentry List.not_mem_nil⟩
  · intro entry basket hfirst hlast _ hreceived answer next hanswer hadd
    obtain ⟨hrange, hnext⟩ := hreceived.addEntry hanswer hadd
    rw [hrange, entriesBetween_inside hfirst hlast]
    exact ⟨rfl, hnext⟩

/-! ### The rows -/

/-- The entries a basket row stands for. -/
def BasketStatisticsRow.entries (row : BasketStatisticsRow) : List Nat :=
  List.range' row.entryBegin.toNat (row.entryEnd.toNat - row.entryBegin.toNat)

/-- A basket row is exact for its entries: all of them were read, and the columns are those of
    their values.  The statistics columns are kept for double-backed types only. -/
structure BasketStatisticsRow.Exact (row : BasketStatisticsRow) (path : IndexedPath indexCount) :
    Prop where
  reads : ∀ entry ∈ row.entries, path.Reads entry
  valueCount : row.valueCount = (path.valuesAt row.entries).length
  nullCount : row.nullCount = path.nullsAt row.entries
  statistics : path.statisticsDoubleSafe = true →
    row.statistics.ExactFor (doubles (path.valuesAt row.entries))

/-- A file row holds the sums, the minimum and the maximum of the basket rows. -/
structure FileStatisticsRow.AddsUp (file : FileStatisticsRow) (rows : List BasketStatisticsRow) :
    Prop where
  valueCount : file.valueCount = (rows.map (·.valueCount)).sum
  nullCount : file.nullCount = (rows.map (·.nullCount)).sum
  basketCount : file.basketCount = rows.length
  statistics : file.statistics.AddsUp (rows.map (·.statistics))

theorem length_accumulate (bloom : RootBloomBuilder) (enabled : Bool)
    (values : List RootPrimitiveValue) :
    (accumulate bloom enabled values).valueCount = values.length := by
  induction values using List.reverseRecOn with
  | nil => rfl
  | append_singleton values value ih =>
    rw [← accumulate_append, List.foldl_cons, List.foldl_nil, valueCount_add, ih,
      List.length_append, List.length_singleton]

variable {totalEntries : UInt64} (enabled : Bool)

/-- A column that is taken from the basket alone. -/
theorem map_basketStatisticsRows {β : Type} {column : BasketStatisticsRow → β}
    {ofBasket : IndexedBasket totalEntries → β}
    (h : ∀ flatValueBegin basket, column (basket.row enabled flatValueBegin) = ofBasket basket)
    (baskets : List (IndexedBasket totalEntries)) : ∀ flatValueBegin : Nat,
      (basketStatisticsRows enabled flatValueBegin baskets).map column = baskets.map ofBasket := by
  induction baskets with
  | nil => exact fun _ => rfl
  | cons basket baskets ih =>
    intro flatValueBegin
    unfold basketStatisticsRows
    rw [List.map_cons, List.map_cons, h, ih]

theorem mem_basketStatisticsRows {row : BasketStatisticsRow}
    {baskets : List (IndexedBasket totalEntries)} : ∀ {flatValueBegin : Nat},
      row ∈ basketStatisticsRows enabled flatValueBegin baskets →
      ∃ basket ∈ baskets, ∃ before, row = basket.row enabled before := by
  induction baskets with
  | nil =>
    intro flatValueBegin h
    cases h
  | cons basket baskets ih =>
    intro flatValueBegin h
    unfold basketStatisticsRows at h
    rcases List.mem_cons.mp h with rfl | h
    · exact ⟨basket, List.mem_cons_self, flatValueBegin, rfl⟩
    · obtain ⟨other, hother, before, rfl⟩ := ih h
      exact ⟨other, List.mem_cons_of_mem _ hother, before, rfl⟩

/-- **`flat_value_begin` is the prefix sum** of the value counts. -/
theorem flatValueBegin_eq (baskets : List (IndexedBasket totalEntries)) :
    ∀ {flatValueBegin : Nat} {before after : List BasketStatisticsRow} {row : BasketStatisticsRow},
      basketStatisticsRows enabled flatValueBegin baskets = before ++ row :: after →
      row.flatValueBegin = flatValueBegin + (before.map (·.valueCount)).sum := by
  induction baskets with
  | nil =>
    intro flatValueBegin before after row h
    simp [basketStatisticsRows] at h
  | cons basket baskets ih =>
    intro flatValueBegin before after row h
    unfold basketStatisticsRows at h
    cases before with
    | nil =>
      obtain ⟨rfl, -⟩ := List.cons.inj h
      rfl
    | cons first before =>
      obtain ⟨rfl, hrest⟩ := List.cons.inj h
      rw [ih hrest, List.map_cons, List.sum_cons, Nat.add_assoc]
      rfl

/-- **The file row adds up the basket rows.** -/
theorem fileStatisticsRow_addsUp {baskets : List (IndexedBasket totalEntries)}
    (h : ∀ basket ∈ baskets, basket.basket.FiniteExtremes) (flatValueBegin : Nat) :
    (fileStatisticsRow baskets).AddsUp (basketStatisticsRows enabled flatValueBegin baskets) := by
  constructor
  · have hcounts := @map_basketStatisticsRows totalEntries enabled Nat (·.valueCount)
      (·.basket.valueCount) (fun _ _ => rfl) baskets flatValueBegin
    rw [hcounts, List.sum_eq_foldl_nat, List.foldl_map]
    rfl
  · have hcounts := @map_basketStatisticsRows totalEntries enabled Nat (·.nullCount)
      (·.nullCount) (fun _ _ => rfl) baskets flatValueBegin
    rw [hcounts, List.sum_eq_foldl_nat, List.foldl_map]
    rfl
  · have hones := @map_basketStatisticsRows totalEntries enabled Nat (fun _ => 1)
      (fun _ => 1) (fun _ _ => rfl) baskets flatValueBegin
    have hlength : (basketStatisticsRows enabled flatValueBegin baskets).length =
        baskets.length := by simpa using congrArg List.length hones
    have hcount : (baskets.map fun _ => 1).sum = baskets.length := by simp
    rw [hlength, ← hcount, List.sum_eq_foldl_nat, List.foldl_map]
    rfl
  · have hstatistics := @map_basketStatisticsRows totalEntries enabled ValueStatistics
      (·.statistics) (·.basket.statistics) (fun _ _ => rfl) baskets flatValueBegin
    have haddsUp := @fileStatistics_addsUp (baskets.map (·.basket)) fun basket hbasket => by
      obtain ⟨b, hb, rfl⟩ := List.mem_map.mp hbasket
      exact h b hb
    rw [List.map_map] at haddsUp
    rw [hstatistics]
    exact haddsUp

/-- **Index statistics are exact.** -/
theorem index_statistics_exact {path : IndexedPath indexCount} {rows : List BasketStatisticsRow}
    {file : FileStatisticsRow} (h : path.statisticsRows = .ok (rows, file)) :
    rows.map (fun row => (row.entryBegin, row.entryEnd)) =
        path.ranges.map (fun range => (range.entryBegin, range.entryEnd)) ∧
      (rows.Pairwise fun a b => a.entryEnd.toNat ≤ b.entryBegin.toNat) ∧
      (∀ row ∈ rows, row.Exact path) ∧
      (∀ before row after, rows = before ++ row :: after →
        row.flatValueBegin = (before.map (·.valueCount)).sum) ∧
      file.AddsUp rows := by
  unfold IndexedPath.statisticsRows at h
  cases hbaskets : path.baskets with
  | error e =>
    rw [hbaskets] at h
    cases h
  | ok baskets =>
    rw [hbaskets] at h
    cases h
    obtain ⟨hranges, hreceived⟩ := IndexedPath.baskets_received hbaskets
    have hcolumns : (basketStatisticsRows path.statisticsDoubleSafe 0 baskets).map
        (fun row => (row.entryBegin, row.entryEnd)) =
        path.ranges.map (fun range => (range.entryBegin, range.entryEnd)) := by
      rw [@map_basketStatisticsRows _ path.statisticsDoubleSafe _
        (fun row => (row.entryBegin, row.entryEnd))
        (fun basket => (basket.range.entryBegin, basket.range.entryEnd)) (fun _ _ => rfl),
        ← hranges, List.map_map]
      rfl
    have hordered := (preparePath_ordered path.totalEntries path.basketEntries path.ordered).1
    refine ⟨hcolumns, ?_, ?_, ?_, ?_⟩
    · have hpairs : (path.ranges.map fun range => (range.entryBegin, range.entryEnd)).Pairwise
          fun a b => a.2.toNat ≤ b.1.toNat := List.pairwise_map.mpr hordered
      rw [← hcolumns] at hpairs
      exact List.pairwise_map.mp hpairs
    · intro row hrow
      obtain ⟨basket, hbasket, before, rfl⟩ := mem_basketStatisticsRows _ hrow
      have h := hreceived basket hbasket
      have hentries : entriesBetween basket.range.entryBegin.toNat basket.range.entryEnd.toNat
          path.totalEntries.toNat = (basket.row path.statisticsDoubleSafe before).entries := by
        unfold entriesBetween
        rw [Nat.min_eq_left basket.range.inFile]
        rfl
      rw [hentries] at h
      refine ⟨h.reads, ?_, h.nulls, fun hsafe => ?_⟩
      · exact (congrArg _ h.accumulated).trans (length_accumulate _ _ _)
      · have haccumulated := h.accumulated
        rw [hsafe] at haccumulated ⊢
        have hexact := basket_statistics_exact path.bloom
          (path.valuesAt (basket.row true before).entries)
        rw [← haccumulated] at hexact
        exact hexact
    · intro before row after hrows
      exact (flatValueBegin_eq _ baskets hrows).trans (Nat.zero_add _)
    · apply fileStatisticsRow_addsUp
      intro basket hbasket
      rw [(hreceived basket hbasket).accumulated]
      exact accumulate_finiteExtremes _ _ _

end

/-- The values of an entry are handed over whole, there is no object, or they come in pages. -/
def routedEntry (entry : UInt64) : NumericEntry 0 :=
  if entry = 0 then
    .serializedValues [{ value := .signed 7, indices := [], complete := List.length_nil },
      { value := .signed 9, indices := [], complete := List.length_nil }]
  else if entry = 1 then .none []
  else .paged
    { pages := [[{ value := .signed (-2), indices := [], complete := List.length_nil }],
        [{ value := .signed 5, indices := [], complete := List.length_nil }]]
      after := .closed
      nonempty := by decide }

theorem routedEntries_ordered : ([0, 1] : List UInt64).Pairwise fun a b => a.toNat ≤ b.toNat := by
  decide

/-- Two baskets; the second begins with the second entry. -/
def routedPath : IndexedPath 0 where
  snapshotId := "s"
  fileId := "f"
  rootUri := "f.root"
  treeName := "Events"
  schemaId := "schema"
  columnId := "column"
  eventBase := 0
  totalEntries := 3
  basketEntries := [0, 1]
  ordered := routedEntries_ordered
  physicalOffset range := range.entryBegin * 0x100000
  compressedSize _ := 1
  statisticsDoubleSafe := true
  bloom := freshBloom 0 ⟨fun _ => 0, fun _ _ => 0, 0⟩
  numericEntry entry := .ok (routedEntry entry)

/-- The rows of the path add up and are exact. -/
theorem routed_statistics_exact :
    ∃ rows file, routedPath.statisticsRows = .ok (rows, file) ∧ file.AddsUp rows ∧
      (∀ row ∈ rows, row.Exact routedPath) ∧
      rows.map (fun row => (row.flatValueBegin, row.valueCount, row.nullCount)) =
        [(0, 2, 0), (2, 2, 1)] := by
  refine ⟨_, _, rfl, ?_, ?_, ?_⟩
  · exact (@index_statistics_exact 0 routedPath _ _ rfl).2.2.2.2
  · exact (@index_statistics_exact 0 routedPath _ _ rfl).2.2.1
  · decide

end RootLake.Dataset

/-
  RootLake/Dataset/EventZonemap.lean
  ==================================
  **Event keys: the planner's clauses on `event_fk`.**

  The key of an entry is the event base of its file plus the entry number.  The planner
  turns a filter on the key into a clause over the first and the last key of a file, and
  over the first and the last key of a basket.  The last key is written
  `event_base + total_entries - 1` and `event_base + entry_end - 1`, and the database
  raises an error where such a sum or difference leaves the 64-bit range.

  A file without entries is indexed too: it has a file row and no basket row.  As the
  first file it has event base 0, and its last key is `0 + 0 - 1`.
-/
import RootLake.Dataset.Task
import RootLake.Dataset.Zonemap

namespace RootLake.Dataset

open Sql3

/-! ### The rows of an index -/

/-- A basket row of a file: the range is not empty, and ends with the file. -/
structure BasketRange (totalEntries : UInt64) where
  entryBegin : UInt64
  entryEnd : UInt64
  nonempty : entryBegin.toNat < entryEnd.toNat
  inFile : entryEnd.toNat ≤ totalEntries.toNat

/-- What the builder reads of a file: its entries, and the first entry of every basket of the
    path's physical branch.  A file whose build failed is not `indexed`. -/
structure IndexedFile where
  totalEntries : UInt64
  basketEntries : List UInt64
  indexed : Bool := true

theorem basketEnd_le (totalEntries : UInt64) (rest : List UInt64) :
    (stdMin (rest.head?.getD totalEntries) totalEntries).toNat ≤ totalEntries.toNat := by
  rw [toNat_stdMin]
  exact Nat.min_le_right _ _

/-- The ranges of `PreparePath`; a basket that starts behind its end is left out. -/
def preparePath (totalEntries : UInt64) : List UInt64 → List (BasketRange totalEntries)
  | [] => []
  | entryBegin :: rest =>
      let entryEnd := stdMin (rest.head?.getD totalEntries) totalEntries
      if h : entryBegin.toNat < entryEnd.toNat then
        ⟨entryBegin, entryEnd, h, basketEnd_le totalEntries rest⟩ ::
          preparePath totalEntries rest
      else preparePath totalEntries rest

/-- The file row of a path with its basket rows. -/
structure EventRows where
  eventBase : UInt64
  totalEntries : UInt64
  baskets : List (BasketRange totalEntries)

/-- The rows of the files in their order.  The event bases are those of `InspectFiles`, which
    counts the entries of every file. -/
def indexedRows (eventBase : UInt64) : List IndexedFile → List EventRows
  | [] => []
  | file :: rest =>
      let next := indexedRows (eventBase + file.totalEntries) rest
      if file.indexed then
        ⟨eventBase, file.totalEntries, preparePath file.totalEntries file.basketEntries⟩ :: next
      else next

/-- The key of an entry, as the scan emits it. -/
def EventRows.eventFk (rows : EventRows) (entry : UInt64) : UInt64 := rows.eventBase + entry

/-! ### Checked arithmetic -/

/-- The database gives up on a sum or a difference. -/
inductive OutOfRangeException where
  | addition (left right : UInt64)
  | subtraction (left right : UInt64)
  deriving DecidableEq, Repr

def addUBigint (left right : UInt64) : Except OutOfRangeException UInt64 :=
  if left.toNat + right.toNat < 2 ^ 64 then .ok (left + right) else .error (.addition left right)

def subtractUBigint (left right : UInt64) : Except OutOfRangeException UInt64 :=
  if right.toNat ≤ left.toNat then .ok (left - right) else .error (.subtraction left right)

/-- `base + count - 1`. -/
def lastKey (base count : UInt64) : Except OutOfRangeException UInt64 :=
  match addUBigint base count with
  | .ok sum => subtractUBigint sum 1
  | .error e => .error e

def EventRows.fileColumns (rows : EventRows) :
    StatisticsColumn → Except OutOfRangeException UInt64
  | .minValue => .ok rows.eventBase
  | .maxValue => lastKey rows.eventBase rows.totalEntries

def EventRows.basketColumns (rows : EventRows) (basket : BasketRange rows.totalEntries) :
    StatisticsColumn → Except OutOfRangeException UInt64
  | .minValue => addUBigint rows.eventBase basket.entryBegin
  | .maxValue => lastKey rows.eventBase basket.entryEnd

theorem addUBigint_eq_ok {left right sum : UInt64} :
    addUBigint left right = .ok sum ↔ sum.toNat = left.toNat + right.toNat := by
  unfold addUBigint
  split
  next h =>
    rw [Except.ok.injEq, ← UInt64.toNat_inj, toNat_add_of_lt h]
    exact eq_comm
  next h =>
    have hsum := sum.toNat_lt
    constructor
    · intro heq
      cases heq
    · intro heq
      omega

theorem lastKey_eq_ok {base count last : UInt64} :
    lastKey base count = .ok last ↔
      base.toNat + count.toNat < 2 ^ 64 ∧ last.toNat + 1 = base.toNat + count.toNat := by
  unfold lastKey
  cases hsum : addUBigint base count with
  | error e =>
    constructor
    · intro heq
      cases heq
    · rintro ⟨hfits, -⟩
      rw [addUBigint, if_pos hfits] at hsum
      cases hsum
  | ok sum =>
    have hsum := addUBigint_eq_ok.mp hsum
    have hlt := sum.toNat_lt
    have hone : (1 : UInt64).toNat = 1 := rfl
    dsimp only
    unfold subtractUBigint
    split
    next hle =>
      rw [Except.ok.injEq, ← UInt64.toNat_inj, toNat_sub_of_le hle, hone]
      omega
    next hle =>
      constructor
      · intro heq
        cases heq
      · intro heq
        omega

/-! ### Clauses over checked columns -/

/-- The clause reads the column. -/
def Clause.Mentions {K : Type} (column : StatisticsColumn) : Clause K → Prop
  | compare read _ _ => read = column
  | conj left right => left.Mentions column ∨ right.Mentions column
  | disj left right => left.Mentions column ∨ right.Mentions column
  | never => False

/-- The clause over columns that are computed: an error in a column it reads is an error of
    the clause, since the database may evaluate the comparisons in any order. -/
def Clause.evalChecked (read : StatisticsColumn → Except OutOfRangeException UInt64) :
    Clause UInt64 → Except OutOfRangeException Truth
  | compare column type literal => (read column).map fun value => some (type.holds value literal)
  | conj left right =>
      match left.evalChecked read, right.evalChecked read with
      | .ok l, .ok r => .ok (and3 l r)
      | .error e, _ => .error e
      | _, .error e => .error e
  | disj left right =>
      match left.evalChecked read, right.evalChecked read with
      | .ok l, .ok r => .ok (or3 l r)
      | .error e, _ => .error e
      | _, .error e => .error e
  | never => .ok (some false)

/-- When the columns the clause reads have values, it is evaluated over them. -/
theorem Clause.evalChecked_of_mentions
    {read : StatisticsColumn → Except OutOfRangeException UInt64}
    {values : StatisticsColumn → UInt64} {clause : Clause UInt64}
    (h : ∀ column, clause.Mentions column → read column = .ok (values column)) :
    clause.evalChecked read = .ok (clause.eval fun column => some (values column)) := by
  induction clause with
  | compare column type literal =>
    rw [evalChecked, h column rfl]
    rfl
  | conj left right ihl ihr =>
    rw [evalChecked, ihl fun column hleft => h column (Or.inl hleft),
      ihr fun column hright => h column (Or.inr hright)]
    rfl
  | disj left right ihl ihr =>
    rw [evalChecked, ihl fun column hleft => h column (Or.inl hleft),
      ihr fun column hright => h column (Or.inr hright)]
    rfl
  | never => rfl

/-- A clause that has been evaluated has read all its columns. -/
theorem Clause.mentions_of_evalChecked
    {read : StatisticsColumn → Except OutOfRangeException UInt64} {column : StatisticsColumn}
    {clause : Clause UInt64} (h : clause.Mentions column) :
    ∀ {truth : Truth}, clause.evalChecked read = .ok truth → ∃ value, read column = .ok value := by
  induction clause with
  | compare readColumn type literal =>
    intro truth heval
    rw [← h]
    cases hread : read readColumn with
    | ok value => exact ⟨value, rfl⟩
    | error e =>
      rw [evalChecked, hread] at heval
      cases heval
  | conj left right ihl ihr | disj left right ihl ihr =>
    intro truth heval
    simp only [evalChecked] at heval
    split at heval
    next l r hl hr =>
      rcases h with h | h
      · exact ihl h hl
      · exact ihr h hr
    next => cases heval
    next => cases heval
  | never => exact h.elim

/-! ### Soundness over bounds -/

/-- A directed clause that a key meets is true over a lower and an upper bound of the key;
    a bound that the clause does not read may be missing. -/
theorem Clause.Directed.evalChecked_of_metBy {clause : Clause UInt64} (hdirected : clause.Directed)
    {read : StatisticsColumn → Except OutOfRangeException UInt64} {key : UInt64}
    (hmet : clause.MetBy [key])
    (hmin : clause.Mentions .minValue →
      ∃ lo, read .minValue = .ok lo ∧ lo.toNat ≤ key.toNat)
    (hmax : clause.Mentions .maxValue →
      ∃ hi, read .maxValue = .ok hi ∧ key.toNat ≤ hi.toNat) :
    clause.evalChecked read = .ok (some true) := by
  -- A column that is not read gets the key itself.
  have hlo : ∃ lo : UInt64, (clause.Mentions .minValue → read .minValue = .ok lo) ∧
      lo.toNat ≤ key.toNat := by
    by_cases h : clause.Mentions .minValue
    · obtain ⟨lo, hlo, hle⟩ := hmin h
      exact ⟨lo, fun _ => hlo, hle⟩
    · exact ⟨key, fun h' => absurd h' h, Nat.le_refl _⟩
  have hhi : ∃ hi : UInt64, (clause.Mentions .maxValue → read .maxValue = .ok hi) ∧
      key.toNat ≤ hi.toNat := by
    by_cases h : clause.Mentions .maxValue
    · obtain ⟨hi, hhi, hle⟩ := hmax h
      exact ⟨hi, fun _ => hhi, hle⟩
    · exact ⟨key, fun h' => absurd h' h, Nat.le_refl _⟩
  obtain ⟨lo, hlo, hloLe⟩ := hlo
  obtain ⟨hi, hhi, hhiLe⟩ := hhi
  have hextremes : ReadsExtremes
      (fun column => some (match column with | .minValue => lo | .maxValue => hi))
      [lo, key, hi] := by
    refine ⟨?_, fun _ => ⟨lo, by simp, hi, by simp, rfl, rfl, ?_⟩⟩
    · intro h
      cases h
    · intro x hx
      simp only [SqlOrdered.sqlKey]
      simp only [List.mem_cons, List.not_mem_nil, or_false] at hx
      rcases hx with rfl | rfl | rfl <;> omega
  rw [@Clause.evalChecked_of_mentions read
    (fun column => match column with | .minValue => lo | .maxValue => hi) clause ?_]
  · refine congrArg Except.ok ((hdirected.eval_iff hextremes).mpr (hmet.mono ?_))
    intro x hx
    rw [List.mem_singleton.mp hx]
    simp
  · intro column hmentions
    cases column with
    | minValue => exact hlo hmentions
    | maxValue => exact hhi hmentions

/-- A clause on the minimum only says that the minimum meets it. -/
theorem Clause.Directed.metBy_of_evalChecked {clause : Clause UInt64}
    (hdirected : clause.Directed) {read : StatisticsColumn → Except OutOfRangeException UInt64}
    {lo : UInt64} (hmin : clause.Mentions .minValue → read .minValue = .ok lo)
    (hmax : ¬ clause.Mentions .maxValue)
    (heval : clause.evalChecked read = .ok (some true)) : clause.MetBy [lo] := by
  rw [@Clause.evalChecked_of_mentions read (fun _ => lo) clause ?_] at heval
  · refine (hdirected.eval_iff ⟨?_, fun _ => ?_⟩).mp (Except.ok.inj heval)
    · intro h
      cases h
    · refine ⟨lo, List.mem_cons_self, lo, List.mem_cons_self, rfl, rfl, ?_⟩
      intro x hx
      rw [List.mem_singleton.mp hx]
      exact ⟨Int.le_refl _, Int.le_refl _⟩
  · intro column hmentions
    cases column with
    | minValue => exact hmin hmentions
    | maxValue => exact absurd hmentions hmax

/-! ### Pruning by event key -/

/-- The clause of a filter on the event key. -/
def eventZonemapClause (sem : SqlSemantics UInt64) (filter : TableFilter UInt64) :
    Option (Clause UInt64) :=
  zonemapClause sem filter .ubigint

/-- A clause on the checked columns; no clause keeps the row. -/
def evalEventClause (clause : Option (Clause UInt64))
    (read : StatisticsColumn → Except OutOfRangeException UInt64) :
    Except OutOfRangeException Truth :=
  match clause with
  | none => .ok (some true)
  | some clause => clause.evalChecked read

/-- What pruning by event key is for: no clause raises on a row, and a basket with an entry
    whose key satisfies the filter is kept, as is the row of its file. -/
structure EventPruningSound (sem : SqlSemantics UInt64) (filter : TableFilter UInt64)
    (rows : List EventRows) : Prop where
  fileTotal : ∀ row ∈ rows, ∃ truth,
    evalEventClause (eventZonemapClause sem filter) row.fileColumns = .ok truth
  basketTotal : ∀ row ∈ rows, ∀ basket ∈ row.baskets, ∃ truth,
    evalEventClause (eventZonemapClause sem filter) (row.basketColumns basket) = .ok truth
  kept : ∀ row ∈ rows, ∀ basket ∈ row.baskets, ∀ entry : UInt64,
    basket.entryBegin.toNat ≤ entry.toNat → entry.toNat < basket.entryEnd.toNat →
    filter.meaning sem .ubigint (row.eventFk entry) = some true →
      evalEventClause (eventZonemapClause sem filter) row.fileColumns = .ok (some true) ∧
        evalEventClause (eventZonemapClause sem filter) (row.basketColumns basket) =
          .ok (some true)

/-- The condition on the rows that a clause needs. -/
structure KeysFit (sem : SqlSemantics UInt64) (filter : TableFilter UInt64)
    (clause : Clause UInt64) (rows : List EventRows) : Prop where
  last : clause.Mentions .maxValue → ∀ row ∈ rows,
    0 < row.eventBase.toNat + row.totalEntries.toNat ∧
      row.eventBase.toNat + row.totalEntries.toNat < 2 ^ 64
  first : clause.Mentions .minValue → ∀ row ∈ rows, ∀ basket ∈ row.baskets,
    row.eventBase.toNat + basket.entryBegin.toNat < 2 ^ 64
  wrapped : ∀ row ∈ rows, ∀ basket ∈ row.baskets, ∀ entry : UInt64,
    basket.entryBegin.toNat ≤ entry.toNat → entry.toNat < basket.entryEnd.toNat →
    2 ^ 64 ≤ row.eventBase.toNat + entry.toNat →
    filter.meaning sem .ubigint (row.eventFk entry) = some true →
      clause.MetBy [row.eventBase + basket.entryBegin]

section

variable {sem : SqlSemantics UInt64} {filter : TableFilter UInt64} {clause : Clause UInt64}
variable {rows : List EventRows}

/-- The keys of a basket whose end fits, and the bounds the clauses read. -/
theorem eventFk_bounds {row : EventRows} {basket : BasketRange row.totalEntries} {entry : UInt64}
    (hfirst : basket.entryBegin.toNat ≤ entry.toNat) (hlast : entry.toNat < basket.entryEnd.toNat)
    (hfits : row.eventBase.toNat + entry.toNat < 2 ^ 64) :
    (row.eventFk entry).toNat = row.eventBase.toNat + entry.toNat ∧
      row.eventBase.toNat ≤ (row.eventFk entry).toNat ∧
      (∀ lo, row.basketColumns basket .minValue = .ok lo → lo.toNat ≤ (row.eventFk entry).toNat) ∧
      (∀ hi, row.basketColumns basket .maxValue = .ok hi → (row.eventFk entry).toNat ≤ hi.toNat) ∧
      ∀ hi, row.fileColumns .maxValue = .ok hi → (row.eventFk entry).toNat ≤ hi.toNat := by
  have hkey : (row.eventFk entry).toNat = row.eventBase.toNat + entry.toNat := toNat_add_of_lt hfits
  have hinFile := basket.inFile
  refine ⟨hkey, by omega, ?_, ?_, ?_⟩
  · intro lo hlo
    have hlo := addUBigint_eq_ok.mp hlo
    omega
  · intro hi hhi
    obtain ⟨-, hhi⟩ := lastKey_eq_ok.mp hhi
    omega
  · intro hi hhi
    obtain ⟨-, hhi⟩ := lastKey_eq_ok.mp hhi
    omega

/-- The columns that a clause reads have values where the keys fit. -/
theorem KeysFit.read (h : KeysFit sem filter clause rows) {row : EventRows} (hrow : row ∈ rows) :
    (∀ column, clause.Mentions column → ∃ value, row.fileColumns column = .ok value) ∧
      ∀ basket ∈ row.baskets, ∀ column, clause.Mentions column →
        ∃ value, row.basketColumns basket column = .ok value := by
  have hlastKey : ∀ count : UInt64, 0 < row.eventBase.toNat + count.toNat →
      row.eventBase.toNat + count.toNat < 2 ^ 64 → ∃ last, lastKey row.eventBase count = .ok last := by
    intro count hpos hfits
    refine ⟨UInt64.ofNat (row.eventBase.toNat + count.toNat - 1), lastKey_eq_ok.mpr ⟨hfits, ?_⟩⟩
    rw [toNat_ofNat_of_lt (by omega)]
    omega
  refine ⟨?_, ?_⟩
  · intro column hmentions
    cases column with
    | minValue => exact ⟨row.eventBase, rfl⟩
    | maxValue =>
      obtain ⟨hpos, hfits⟩ := h.last hmentions row hrow
      exact hlastKey row.totalEntries hpos hfits
  · intro basket hbasket column hmentions
    have hnonempty := basket.nonempty
    have hinFile := basket.inFile
    cases column with
    | minValue =>
      exact ⟨_, addUBigint_eq_ok.mpr (toNat_add_of_lt (h.first hmentions row hrow basket hbasket))⟩
    | maxValue =>
      obtain ⟨hpos, hfits⟩ := h.last hmentions row hrow
      exact hlastKey basket.entryEnd (by omega) (by omega)

/-- A clause whose columns all have values does not raise. -/
theorem Clause.evalChecked_total {read : StatisticsColumn → Except OutOfRangeException UInt64}
    (h : ∀ column, clause.Mentions column → ∃ value, read column = .ok value) :
    ∃ truth, clause.evalChecked read = .ok truth := by
  refine ⟨_, @Clause.evalChecked_of_mentions read
    (fun column => (read column).toOption.getD 0) clause ?_⟩
  intro column hmentions
  obtain ⟨value, hvalue⟩ := h column hmentions
  rw [hvalue]
  rfl

/-- A key that did not wrap and satisfies the filter keeps its basket and its file. -/
theorem KeysFit.kept (h : KeysFit sem filter clause rows)
    (hclause : ClauseFor (fun x => filter.meaning sem .ubigint x) clause) {row : EventRows}
    (hrow : row ∈ rows) {basket : BasketRange row.totalEntries} (hbasket : basket ∈ row.baskets)
    {entry : UInt64} (hfirst : basket.entryBegin.toNat ≤ entry.toNat)
    (hlast : entry.toNat < basket.entryEnd.toNat)
    (hmeaning : filter.meaning sem .ubigint (row.eventFk entry) = some true) :
    clause.evalChecked row.fileColumns = .ok (some true) ∧
      clause.evalChecked (row.basketColumns basket) = .ok (some true) := by
  obtain ⟨hfile, hbaskets⟩ := h.read hrow
  have hbasketRead := hbaskets basket hbasket
  by_cases hfits : row.eventBase.toNat + entry.toNat < 2 ^ 64
  · have hmet := hclause.sound _ hmeaning
    obtain ⟨-, hbase, hlo, hhi, hfileHi⟩ := eventFk_bounds hfirst hlast hfits
    constructor
    · refine hclause.directed.evalChecked_of_metBy hmet (fun _ => ⟨row.eventBase, rfl, hbase⟩) ?_
      intro hmentions
      obtain ⟨hi, hread⟩ := hfile .maxValue hmentions
      exact ⟨hi, hread, hfileHi hi hread⟩
    · refine hclause.directed.evalChecked_of_metBy hmet ?_ ?_
      · intro hmentions
        obtain ⟨lo, hread⟩ := hbasketRead .minValue hmentions
        exact ⟨lo, hread, hlo lo hread⟩
      · intro hmentions
        obtain ⟨hi, hread⟩ := hbasketRead .maxValue hmentions
        exact ⟨hi, hread, hhi hi hread⟩
  · -- The key wrapped: the clause does not read the maximum.
    have hmet := h.wrapped row hrow basket hbasket entry hfirst hlast (by omega) hmeaning
    have hnoMax : ¬ clause.Mentions .maxValue := by
      intro hmentions
      have hinFile := basket.inFile
      obtain ⟨-, hlt⟩ := h.last hmentions row hrow
      omega
    constructor
    · refine hclause.directed.evalChecked_of_metBy hmet ?_ fun hmentions => absurd hmentions hnoMax
      intro hmentions
      have hsum := toNat_add_of_lt (h.first hmentions row hrow basket hbasket)
      exact ⟨row.eventBase, rfl, by omega⟩
    · refine hclause.directed.evalChecked_of_metBy hmet ?_ fun hmentions => absurd hmentions hnoMax
      intro hmentions
      obtain ⟨lo, hread⟩ := hbasketRead .minValue hmentions
      have hsum := toNat_add_of_lt (h.first hmentions row hrow basket hbasket)
      have hlo := addUBigint_eq_ok.mp hread
      exact ⟨lo, hread, by omega⟩

/-- Pruning with a clause is total and sound just when the keys fit. -/
theorem eventPruningSound_iff_keysFit (hclause : eventZonemapClause sem filter = some clause) :
    EventPruningSound sem filter rows ↔ KeysFit sem filter clause rows := by
  have hfor : ClauseFor (fun x => filter.meaning sem .ubigint x) clause := zonemapClause_spec sem hclause
  constructor
  · rintro ⟨hfile, hbasket, hkept⟩
    simp only [hclause, evalEventClause] at hfile hbasket hkept
    have hfirst : clause.Mentions .minValue → ∀ row ∈ rows, ∀ basket ∈ row.baskets,
        row.eventBase.toNat + basket.entryBegin.toNat < 2 ^ 64 := by
      intro hmentions row hrow basket hmem
      obtain ⟨truth, heval⟩ := hbasket row hrow basket hmem
      obtain ⟨lo, hread⟩ := Clause.mentions_of_evalChecked hmentions heval
      have hlo := addUBigint_eq_ok.mp hread
      have hlt := lo.toNat_lt
      omega
    have hlast : clause.Mentions .maxValue → ∀ row ∈ rows,
        0 < row.eventBase.toNat + row.totalEntries.toNat ∧
          row.eventBase.toNat + row.totalEntries.toNat < 2 ^ 64 := by
      intro hmentions row hrow
      obtain ⟨truth, heval⟩ := hfile row hrow
      obtain ⟨hi, hread⟩ := Clause.mentions_of_evalChecked hmentions heval
      obtain ⟨hfits, hhi⟩ := lastKey_eq_ok.mp hread
      omega
    refine ⟨hlast, hfirst, ?_⟩
    intro row hrow basket hmem entry hbegin hend hwraps hmeaning
    have hinFile := basket.inFile
    have hnoMax : ¬ clause.Mentions .maxValue := by
      intro hmentions
      obtain ⟨-, hlt⟩ := hlast hmentions row hrow
      omega
    obtain ⟨-, heval⟩ := hkept row hrow basket hmem entry hbegin hend hmeaning
    refine hfor.directed.metBy_of_evalChecked ?_ hnoMax heval
    intro hmentions
    exact addUBigint_eq_ok.mpr (toNat_add_of_lt (hfirst hmentions row hrow basket hmem))
  · intro hfit
    refine ⟨?_, ?_, ?_⟩
    · intro row hrow
      rw [hclause]
      exact Clause.evalChecked_total (hfit.read hrow).1
    · intro row hrow basket hbasket
      rw [hclause]
      exact Clause.evalChecked_total ((hfit.read hrow).2 basket hbasket)
    · intro row hrow basket hbasket entry hfirst hlast hmeaning
      rw [hclause]
      exact hfit.kept hfor hrow hbasket hfirst hlast hmeaning

/-- **Pruning by event key is total and sound just when the keys fit.**  Let the index hold the
    rows of any files.  No clause of the filter raises, and a basket with an entry whose key
    satisfies the filter is kept, if and only if the filter has no clause, or

    * where the clause reads the last key, no indexed file has event base 0 and no entry, and
      `event_base + total_entries` stays below `2^64` for each of them,
    * where it reads the first key, `event_base + entry_begin` stays below `2^64`, and
    * where the keys of a basket go beyond `2^64` and start over with one that satisfies the
      filter, the first key of the basket meets the clause. -/
theorem event_pruning_total_sound_iff (sem : SqlSemantics UInt64) (filter : TableFilter UInt64)
    (files : List IndexedFile) :
    EventPruningSound sem filter (indexedRows 0 files) ↔
      ∀ clause, eventZonemapClause sem filter = some clause →
        KeysFit sem filter clause (indexedRows 0 files) := by
  cases hclause : eventZonemapClause sem filter with
  | none =>
    refine ⟨fun _ clause h => by simp at h, fun _ => ?_⟩
    constructor
    · intro row hrow
      rw [hclause]
      exact ⟨_, rfl⟩
    · intro row hrow basket hbasket
      rw [hclause]
      exact ⟨_, rfl⟩
    · intro row hrow basket hbasket entry hfirst hlast hmeaning
      rw [hclause]
      exact ⟨rfl, rfl⟩
  | some clause =>
    rw [eventPruningSound_iff_keysFit hclause]
    constructor
    · intro hfit clause' heq
      cases heq
      exact hfit
    · intro hfit
      exact hfit clause rfl

end

/-- The filter `event_fk >= 3`. -/
def eventsFromThree : TableFilter UInt64 :=
  .expression (.comparison .compareGreaterThanOrEqualTo .column
    (.constant (.number .ubigint 3)))

/-- An empty file comes first, and a file with five entries second: the last key of the first
    one is `0 + 0 - 1`, and the query fails. -/
theorem event_pruning_raises_on_empty_file :
    ¬ EventPruningSound (withoutCasts UInt64) eventsFromThree
      (indexedRows 0 [⟨0, [0], true⟩, ⟨5, [0], true⟩]) := by
  intro hsound
  obtain ⟨truth, heval⟩ := hsound.fileTotal _ List.mem_cons_self
  cases heval

end RootLake.Dataset

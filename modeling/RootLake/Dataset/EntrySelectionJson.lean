import RootLake.Dataset.EntrySelection
import Mathlib.Data.Finset.Sort

/-!
# Entry selections as JSON

A selection of entries is written by a script and read when a dataset is bound. The script
stores long runs of consecutive entries as ranges and the rest as differences, each source
under its own key; the reader accepts ranges, entries and differences together and
normalizes what they give.
-/

namespace RootLake.Dataset

/-- A parsed JSON value. An object has its members in key order, each key once. An integer is
    one of 64 bits, signed or not, and a float is kept as what a cast to `uint64_t` makes of
    it. -/
inductive Json where
  | null
  | boolean (value : Bool)
  | integer (value : Int)
  | float (cast : UInt64)
  | string (value : String)
  | array (items : List Json)
  | object (members : List (String × Json))

namespace Json

def typeName : Json → String
  | .null => "null"
  | .boolean _ => "boolean"
  | .integer _ | .float _ => "number"
  | .string _ => "string"
  | .array _ => "array"
  | .object _ => "object"

/-- `contains` and `operator[]`. -/
def get? (value : Json) (key : String) : Option Json :=
  match value with
  | .object members => members.lookup key
  | _ => none

/-- `get<uint64_t>`. -/
def getUInt64 : Json → Except String UInt64
  | .integer value => .ok (UInt64.ofInt value)
  | .float cast => .ok cast
  | value =>
      .error ("[json.exception.type_error.302] type must be number, but is " ++ value.typeName)

end Json

/-! ## The reader -/

def rangeInterval : Json → Except String EntryInterval
  | .array [first, last] =>
      match first.getUInt64 with
      | .error e => .error e
      | .ok start =>
          match last.getUInt64 with
          | .error e => .error e
          | .ok stop => .ok ⟨start, stop⟩
  | _ => .error "entry_selection range must be [begin,end)"

def rangeIntervals : Json → Except String (List EntryInterval)
  | .array ranges => ranges.mapM rangeInterval
  | _ => .error "entry_selection.ranges must be an array"

/-- The interval of one entry. -/
def unitInterval (value : UInt64) : EntryInterval :=
  ⟨value, value + 1⟩

def entryInterval (entry : Json) : Except String EntryInterval :=
  match entry.getUInt64 with
  | .error e => .error e
  | .ok value =>
      if value = uint64Max then .error "entry_selection entry is too large"
      else .ok (unitInterval value)

def entryIntervals : Json → Except String (List EntryInterval)
  | .array entries => entries.mapM entryInterval
  | _ => .error "entry_selection.entries must be an array"

/-- The loop over the differences behind `value`. -/
def deltaIntervals (value : UInt64) : List Json → Except String (List EntryInterval)
  | [] => .ok []
  | item :: rest =>
      match item.getUInt64 with
      | .error e => .error e
      | .ok delta =>
          if delta = 0 ∨ value > uint64Max - delta then
            .error "entry_selection deltas must be positive and non-overflowing"
          else if value + delta = uint64Max then
            .error "entry_selection delta entry is too large"
          else
            match deltaIntervals (value + delta) rest with
            | .error e => .error e
            | .ok intervals => .ok (unitInterval (value + delta) :: intervals)

def entriesDeltaIntervals (encoded : Json) : Except String (List EntryInterval) :=
  match encoded.get? "base", encoded.get? "deltas" with
  | some base, some (.array deltas) =>
      match base.getUInt64 with
      | .error e => .error e
      | .ok value =>
          if value = uint64Max then .error "entry_selection delta base is too large"
          else
            match deltaIntervals value deltas with
            | .error e => .error e
            | .ok intervals => .ok (unitInterval value :: intervals)
  | _, _ => .error "entry_selection.entries_delta must contain base and deltas[]"

/-- An encoding that a selection may leave out. -/
def memberIntervals (selection : Json) (key : String)
    (read : Json → Except String (List EntryInterval)) : Except String (List EntryInterval) :=
  match selection.get? key with
  | none => .ok []
  | some member => read member

/-- The selection of one source; the three encodings add up. -/
def sourceIntervals (selection : Json) : Except String (List EntryInterval) :=
  match selection with
  | .object _ =>
      match memberIntervals selection "ranges" rangeIntervals with
      | .error e => .error e
      | .ok ranges =>
          match memberIntervals selection "entries" entryIntervals with
          | .error e => .error e
          | .ok entries =>
              match memberIntervals selection "entries_delta" entriesDeltaIntervals with
              | .error e => .error e
              | .ok deltas => .ok (ranges ++ entries ++ deltas)
  | _ => .error "entry_selection source value must be an object"

/-- The loop over the sources. -/
def parseSources :
    List (String × Json) → Except String (List (String × CandidateIntervals))
  | [] => .ok []
  | (sourceId, selection) :: rest =>
      match sourceIntervals selection with
      | .error e => .error e
      | .ok intervals =>
          match parseSources rest with
          | .error e => .error e
          | .ok others => .ok ((sourceId, CandidateIntervals.ofIntervals intervals) :: others)

/-- The selection by source, or `none` where no selection is active. -/
def parseEntrySelection (parse : String → Except String Json) (rawJson : String) :
    Except String (Option (List (String × CandidateIntervals))) :=
  if rawJson = "" then .ok none
  else
    match parse rawJson with
    | .error e => .error e
    | .ok (.object sources) =>
        match parseSources sources with
        | .error e => .error e
        | .ok selection => .ok (some selection)
    | .ok _ => .error "entry_selection must be a JSON object keyed by source_id"

/-! ## The script -/

namespace BuildEntrySelection

/-- The inner loop: the values that continue the run of `previous`, and those behind it. -/
def takeRun (previous : Nat) : List Nat → List Nat × List Nat
  | [] => ([], [])
  | value :: rest =>
      if value = previous + 1 then
        (value :: (takeRun value rest).1, (takeRun value rest).2)
      else ([], value :: rest)

theorem takeRun_append (previous : Nat) (values : List Nat) :
    (takeRun previous values).1 ++ (takeRun previous values).2 = values := by
  induction values generalizing previous with
  | nil => rfl
  | cons value rest ih =>
    rw [takeRun]
    by_cases hnext : value = previous + 1
    · rw [if_pos hnext]
      exact congrArg (value :: ·) (ih value)
    · rw [if_neg hnext]
      rfl

theorem takeRun_length_le (previous : Nat) (values : List Nat) :
    (takeRun previous values).2.length ≤ values.length := by
  have h := congrArg List.length (takeRun_append previous values)
  rw [List.length_append] at h
  omega

/-- The outer loop: the ranges and the sparse values. -/
def splitRuns (minRun : Nat) : List Nat → List (Nat × Nat) × List Nat
  | [] => ([], [])
  | value :: rest =>
      let run := value :: (takeRun value rest).1
      let behind := splitRuns minRun (takeRun value rest).2
      if minRun ≤ run.length then
        ((value, (takeRun value rest).1.getLastD value + 1) :: behind.1, behind.2)
      else (behind.1, run ++ behind.2)
termination_by values => values.length
decreasing_by
  exact Nat.lt_succ_of_le (takeRun_length_le value rest)

def encodeRange (range : Nat × Nat) : Json :=
  .array [.integer range.1, .integer range.2]

/-- `right - left` over neighbours. -/
def differences (sparse : List Nat) : List Int :=
  List.zipWith (fun left right : Nat => (right : Int) - left) sparse sparse.tail

/-- `sorted(set(values))`. -/
def sortedSet (values : List Nat) : List Nat :=
  values.toFinset.sort

/-- The members of the result in the order `sort_keys` writes them. -/
def encode (values : List Nat) (minRun : Nat) : Json :=
  let ranges := (splitRuns minRun (sortedSet values)).1
  let sparse := (splitRuns minRun (sortedSet values)).2
  .object
    ((match sparse with
      | [] => []
      | base :: _ =>
          [("entries_delta",
            .object [("base", .integer base),
              ("deltas", .array ((differences sparse).map .integer))])]) ++
      (if ranges = [] then [] else [("ranges", .array (ranges.map encodeRange))]))

/-- What `main` writes for the values grouped by source. -/
def payload (grouped : List (String × List Nat)) (minRun : Nat) : Json :=
  .object (grouped.map fun (source, values) => (source, encode values minRun))

/-! ### Runs -/

/-- The values of a run follow each other. -/
theorem takeRun_consecutive (previous : Nat) (values : List Nat) :
    (takeRun previous values).1 =
      List.range' (previous + 1) (takeRun previous values).1.length := by
  induction values generalizing previous with
  | nil => rfl
  | cons value rest ih =>
    rw [takeRun]
    by_cases hnext : value = previous + 1
    · rw [if_pos hnext]
      dsimp only
      rw [List.length_cons, List.range'_succ, ← hnext]
      exact congrArg (value :: ·) (ih value)
    · rw [if_neg hnext]
      rfl

theorem takeRun_getLastD (previous : Nat) (values : List Nat) :
    (takeRun previous values).1.getLastD previous =
      previous + (takeRun previous values).1.length := by
  induction values generalizing previous with
  | nil => rfl
  | cons value rest ih =>
    rw [takeRun]
    by_cases hnext : value = previous + 1
    · rw [if_pos hnext]
      dsimp only
      rw [List.getLastD_cons, ih value, List.length_cons]
      omega
    · rw [if_neg hnext]
      rfl

/-- A run is the range from its first value to behind its last one. -/
theorem mem_run {value entry : Nat} {rest : List Nat} :
    entry ∈ value :: (takeRun value rest).1 ↔
      value ≤ entry ∧ entry < (takeRun value rest).1.getLastD value + 1 := by
  rw [takeRun_getLastD, takeRun_consecutive, List.length_range', List.mem_cons,
    List.mem_range'_1]
  omega

theorem mem_run_or_behind {value : Nat} {rest : List Nat} {entry : Nat} :
    entry ∈ value :: rest ↔
      entry ∈ value :: (takeRun value rest).1 ∨ entry ∈ (takeRun value rest).2 := by
  rw [← List.mem_append, List.cons_append, takeRun_append]

/-- Ranges and sparse values together hold each value. -/
theorem mem_splitRuns (minRun : Nat) (values : List Nat) (entry : Nat) :
    entry ∈ values ↔
      (∃ range ∈ (splitRuns minRun values).1, range.1 ≤ entry ∧ entry < range.2) ∨
        entry ∈ (splitRuns minRun values).2 := by
  fun_induction splitRuns minRun values with
  | case1 => simp only [List.not_mem_nil, false_and, exists_false, or_false]
  | case2 value rest run behind hlong ih =>
    rw [mem_run_or_behind, ih, List.exists_mem_cons_iff, mem_run, or_assoc]
  | case3 value rest run behind hshort ih =>
    rw [mem_run_or_behind, ih, List.mem_append, or_left_comm]

theorem splitRuns_sparse_sublist (minRun : Nat) (values : List Nat) :
    (splitRuns minRun values).2.Sublist values := by
  fun_induction splitRuns minRun values with
  | case1 => exact List.Sublist.slnil
  | case2 value rest run behind hlong ih =>
    refine (ih.trans ?_).cons value
    conv_rhs => rw [← takeRun_append value rest]
    exact List.sublist_append_right _ _
  | case3 value rest run behind hshort ih =>
    conv_rhs => rw [← takeRun_append value rest]
    exact (List.Sublist.refl run).append ih

/-- A range starts at a value and ends behind one. -/
theorem splitRuns_range_ends (minRun : Nat) (values : List Nat) :
    ∀ range ∈ (splitRuns minRun values).1,
      range.1 ∈ values ∧ ∃ last ∈ values, range.2 = last + 1 := by
  fun_induction splitRuns minRun values with
  | case1 => exact fun _ h => absurd h List.not_mem_nil
  | case2 value rest run behind hlong ih =>
    intro range hrange
    rcases List.mem_cons.mp hrange with rfl | hrange
    · have hlast : (takeRun value rest).1.getLastD value ∈ value :: (takeRun value rest).1 := by
        rw [mem_run, takeRun_getLastD]
        exact ⟨Nat.le_add_right _ _, Nat.lt_succ_self _⟩
      exact ⟨List.mem_cons_self, _, mem_run_or_behind.mpr (Or.inl hlast), rfl⟩
    · obtain ⟨hfirst, last, hlast, hend⟩ := ih range hrange
      exact ⟨mem_run_or_behind.mpr (Or.inr hfirst), last,
        mem_run_or_behind.mpr (Or.inr hlast), hend⟩
  | case3 value rest run behind hshort ih =>
    intro range hrange
    obtain ⟨hfirst, last, hlast, hend⟩ := ih range hrange
    exact ⟨mem_run_or_behind.mpr (Or.inr hfirst), last,
      mem_run_or_behind.mpr (Or.inr hlast), hend⟩

/-! ### What the reader makes of it -/

/-- The interval of a range. -/
def rangeOf (range : Nat × Nat) : EntryInterval :=
  ⟨UInt64.ofNat range.1, UInt64.ofNat range.2⟩

theorem getUInt64_natCast (value : Nat) :
    (Json.integer value).getUInt64 = .ok (UInt64.ofNat value) := by
  have hmod : ((value : Int) % 2 ^ 64).toNat = value % UInt64.size := by
    rw [show UInt64.size = 2 ^ 64 from rfl]
    omega
  rw [Json.getUInt64, UInt64.ofInt, hmod, UInt64.ofNat_mod_size]

theorem rangeInterval_encodeRange (range : Nat × Nat) :
    rangeInterval (encodeRange range) = .ok (rangeOf range) := by
  simp only [rangeInterval, encodeRange, getUInt64_natCast, rangeOf]

theorem mapM_rangeInterval (ranges : List (Nat × Nat)) :
    (ranges.map encodeRange).mapM rangeInterval = .ok (ranges.map rangeOf) := by
  induction ranges with
  | nil => rfl
  | cons range ranges ih =>
    rw [List.map_cons, List.mapM_cons, rangeInterval_encodeRange, ih]
    rfl

theorem sortedSet_pairwise (values : List Nat) : (sortedSet values).Pairwise (· < ·) :=
  (Finset.sortedLT_sort _).pairwise

theorem mem_sortedSet {values : List Nat} {entry : Nat} :
    entry ∈ sortedSet values ↔ entry ∈ values := by
  rw [sortedSet, Finset.mem_sort, List.mem_toFinset]

/-- The differences of an increasing list lead from each value to the next. -/
theorem deltaIntervals_differences (base : Nat) (rest : List Nat)
    (hbound : ∀ value ∈ base :: rest, value < 2 ^ 64 - 1)
    (hincreasing : (base :: rest).Pairwise (· < ·)) :
    deltaIntervals (UInt64.ofNat base) ((differences (base :: rest)).map .integer) =
      .ok (rest.map fun value => unitInterval (UInt64.ofNat value)) := by
  induction rest generalizing base with
  | nil => rfl
  | cons next rest ih =>
    obtain ⟨hbase, hrest⟩ := List.forall_mem_cons.mp hbound
    obtain ⟨hless, hincreasing'⟩ := List.pairwise_cons.mp hincreasing
    have hnext := hless next List.mem_cons_self
    have hnextBound := hrest next List.mem_cons_self
    have hdifference : ((next : Int) - base) = ((next - base : Nat) : Int) := by omega
    have hbaseNat : (UInt64.ofNat base).toNat = base := toNat_ofNat_of_lt (by omega)
    have hdelta : (UInt64.ofNat (next - base)).toNat = next - base :=
      toNat_ofNat_of_lt (by omega)
    have hsum : UInt64.ofNat base + UInt64.ofNat (next - base) = UInt64.ofNat next := by
      rw [← UInt64.ofNat_add]
      congr 1
      omega
    have hpositive : ¬(UInt64.ofNat (next - base) = 0 ∨
        UInt64.ofNat base > uint64Max - UInt64.ofNat (next - base)) := by
      rintro (hzero | hoverflow)
      · have := congrArg UInt64.toNat hzero
        rw [hdelta, UInt64.toNat_zero] at this
        omega
      · rw [gt_iff_lt, UInt64.lt_iff_toNat_lt, toNat_sub_of_le, toNat_uint64Max, hdelta,
          hbaseNat] at hoverflow
        · omega
        · rw [hdelta, toNat_uint64Max]
          omega
    have hfits : ¬UInt64.ofNat next = uint64Max := by
      intro hmax
      have := congrArg UInt64.toNat hmax
      rw [toNat_ofNat_of_lt (by omega), toNat_uint64Max] at this
      omega
    change deltaIntervals _ (.integer ((next : Int) - base) ::
      (differences (next :: rest)).map .integer) = _
    rw [deltaIntervals, hdifference, getUInt64_natCast]
    dsimp only
    rw [if_neg hpositive, hsum, if_neg hfits, ih next hrest hincreasing']
    rfl

theorem entriesDeltaIntervals_encoded (base : Nat) (rest : List Nat)
    (hbound : ∀ value ∈ base :: rest, value < 2 ^ 64 - 1)
    (hincreasing : (base :: rest).Pairwise (· < ·)) :
    entriesDeltaIntervals (.object [("base", .integer base),
        ("deltas", .array ((differences (base :: rest)).map .integer))]) =
      .ok ((base :: rest).map fun value => unitInterval (UInt64.ofNat value)) := by
  have hbase := hbound base List.mem_cons_self
  have hfits : ¬UInt64.ofNat base = uint64Max := by
    intro hmax
    have := congrArg UInt64.toNat hmax
    rw [toNat_ofNat_of_lt (by omega), toNat_uint64Max] at this
    omega
  have hdeltas := deltaIntervals_differences base rest hbound hincreasing
  unfold entriesDeltaIntervals
  rw [show Json.get? _ "base" = some (Json.integer base) from rfl,
    show Json.get? _ "deltas" =
      some (Json.array ((differences (base :: rest)).map .integer)) from rfl]
  dsimp only
  rw [getUInt64_natCast]
  dsimp only
  rw [if_neg hfits, hdeltas]
  rfl

/-- The intervals that the encoded values stand for, before they are normalized. -/
def encodedIntervals (values : List Nat) (minRun : Nat) : List EntryInterval :=
  (splitRuns minRun (sortedSet values)).1.map rangeOf ++
    (splitRuns minRun (sortedSet values)).2.map fun value => unitInterval (UInt64.ofNat value)

theorem encode_ranges (values : List Nat) (minRun : Nat) :
    memberIntervals (encode values minRun) "ranges" rangeIntervals =
      .ok ((splitRuns minRun (sortedSet values)).1.map rangeOf) := by
  have hread (ranges : List (Nat × Nat)) :
      rangeIntervals (.array (ranges.map encodeRange)) = .ok (ranges.map rangeOf) :=
    mapM_rangeInterval ranges
  unfold memberIntervals encode
  cases hsparse : (splitRuns minRun (sortedSet values)).2 with
  | nil =>
    cases hranges : (splitRuns minRun (sortedSet values)).1 with
    | nil => rfl
    | cons range ranges => exact hread (range :: ranges)
  | cons base rest =>
    cases hranges : (splitRuns minRun (sortedSet values)).1 with
    | nil => rfl
    | cons range ranges => exact hread (range :: ranges)

theorem encode_entries (values : List Nat) (minRun : Nat) :
    memberIntervals (encode values minRun) "entries" entryIntervals = .ok [] := by
  unfold memberIntervals encode
  cases hsparse : (splitRuns minRun (sortedSet values)).2 <;>
    cases hranges : (splitRuns minRun (sortedSet values)).1 <;> rfl

theorem encode_entries_delta (values : List Nat) (minRun : Nat)
    (hbound : ∀ value ∈ values, value ≤ 2 ^ 64 - 2) :
    memberIntervals (encode values minRun) "entries_delta" entriesDeltaIntervals =
      .ok ((splitRuns minRun (sortedSet values)).2.map
        fun value => unitInterval (UInt64.ofNat value)) := by
  have hsublist := splitRuns_sparse_sublist minRun (sortedSet values)
  unfold memberIntervals encode
  cases hsparse : (splitRuns minRun (sortedSet values)).2 with
  | nil =>
    cases hranges : (splitRuns minRun (sortedSet values)).1 with
    | nil => rfl
    | cons range ranges => rfl
  | cons base rest =>
    rw [hsparse] at hsublist
    have hvalues : ∀ value ∈ base :: rest, value < 2 ^ 64 - 1 := by
      intro value hvalue
      have := hbound value (mem_sortedSet.mp (hsublist.mem hvalue))
      omega
    exact entriesDeltaIntervals_encoded base rest hvalues
      ((sortedSet_pairwise values).sublist hsublist)

/-- The reader accepts what the script writes for a source. -/
theorem sourceIntervals_encode (values : List Nat) (minRun : Nat)
    (hbound : ∀ value ∈ values, value ≤ 2 ^ 64 - 2) :
    sourceIntervals (encode values minRun) = .ok (encodedIntervals values minRun) := by
  have hranges := encode_ranges values minRun
  have hentries := encode_entries values minRun
  have hdeltas := encode_entries_delta values minRun hbound
  generalize hencoded : encode values minRun = encoded at hranges hentries hdeltas
  obtain ⟨members, hobject⟩ : ∃ members, encoded = .object members := ⟨_, hencoded.symm⟩
  subst hobject
  rw [sourceIntervals, hranges]
  dsimp only
  rw [hentries]
  dsimp only
  rw [hdeltas]
  dsimp only
  rw [List.append_nil]
  rfl

/-- The encoded intervals cover the values and nothing else. -/
theorem encodedIntervals_covers (values : List Nat) (minRun : Nat)
    (hbound : ∀ value ∈ values, value ≤ 2 ^ 64 - 2) (entry : Nat) :
    (∃ i ∈ encodedIntervals values minRun, i.covers entry) ↔ entry ∈ values := by
  have hrange : ∀ range ∈ (splitRuns minRun (sortedSet values)).1,
      (rangeOf range).covers entry ↔ range.1 ≤ entry ∧ entry < range.2 := by
    intro range hrange
    obtain ⟨hfirst, last, hlast, hend⟩ := splitRuns_range_ends minRun _ range hrange
    have hfirst' := hbound _ (mem_sortedSet.mp hfirst)
    have hlast' := hbound _ (mem_sortedSet.mp hlast)
    rw [EntryInterval.covers, rangeOf, toNat_ofNat_of_lt (by omega), toNat_ofNat_of_lt (by omega)]
  have hunit : ∀ value ∈ (splitRuns minRun (sortedSet values)).2,
      (unitInterval (UInt64.ofNat value)).covers entry ↔ value = entry := by
    intro value hvalue
    have hmem := (splitRuns_sparse_sublist minRun (sortedSet values)).mem hvalue
    have hvalue' := hbound _ (mem_sortedSet.mp hmem)
    have hone : (1 : UInt64).toNat = 1 := rfl
    rw [EntryInterval.covers, unitInterval, toNat_add_of_lt, toNat_ofNat_of_lt (by omega), hone]
    · omega
    · rw [toNat_ofNat_of_lt (by omega), hone]
      omega
  rw [← mem_sortedSet, mem_splitRuns minRun, encodedIntervals]
  constructor
  · rintro ⟨interval, hinterval, hcovers⟩
    rcases List.mem_append.mp hinterval with hinterval | hinterval
    · obtain ⟨range, hmem, rfl⟩ := List.mem_map.mp hinterval
      exact Or.inl ⟨range, hmem, (hrange range hmem).mp hcovers⟩
    · obtain ⟨value, hmem, rfl⟩ := List.mem_map.mp hinterval
      exact Or.inr ((hunit value hmem).mp hcovers ▸ hmem)
  · rintro (⟨range, hmem, hcovers⟩ | hmem)
    · exact ⟨rangeOf range, List.mem_append_left _ (List.mem_map_of_mem hmem),
        (hrange range hmem).mpr hcovers⟩
    · exact ⟨_, List.mem_append_right _ (List.mem_map_of_mem hmem), (hunit entry hmem).mpr rfl⟩

/-- The selection that is read back, source by source. -/
def selectionOf (grouped : List (String × List Nat)) (minRun : Nat) :
    List (String × CandidateIntervals) :=
  grouped.map fun (source, values) =>
    (source, CandidateIntervals.ofIntervals (encodedIntervals values minRun))

theorem parseSources_encode (grouped : List (String × List Nat)) (minRun : Nat)
    (hbound : ∀ group ∈ grouped, ∀ value ∈ group.2, value ≤ 2 ^ 64 - 2) :
    parseSources (grouped.map fun (source, values) => (source, encode values minRun)) =
      .ok (selectionOf grouped minRun) := by
  induction grouped with
  | nil => rfl
  | cons group grouped ih =>
    obtain ⟨hgroup, hrest⟩ := List.forall_mem_cons.mp hbound
    rw [List.map_cons, parseSources, sourceIntervals_encode group.2 minRun hgroup]
    dsimp only
    rw [ih hrest]
    rfl

theorem lookup_selectionOf {grouped : List (String × List Nat)} (minRun : Nat)
    (hkeys : (grouped.map Prod.fst).Nodup) {group : String × List Nat} (hgroup : group ∈ grouped) :
    (selectionOf grouped minRun).lookup group.1 =
      some (CandidateIntervals.ofIntervals (encodedIntervals group.2 minRun)) := by
  induction grouped with
  | nil => cases hgroup
  | cons first grouped ih =>
    rw [List.map_cons, List.nodup_cons] at hkeys
    obtain ⟨hfresh, hkeys⟩ := hkeys
    rw [selectionOf, List.map_cons, List.lookup_cons]
    rcases List.mem_cons.mp hgroup with rfl | hgroup
    · rw [beq_self_eq_true]
    · have hother : (group.1 == first.1) = false :=
        beq_false_of_ne fun heq => hfresh (heq ▸ List.mem_map_of_mem hgroup)
      rw [hother]
      exact ih hkeys hgroup

/-- **Round trip**: what the script writes is accepted, and each source is read back as the
    normalized intervals of exactly its values. -/
theorem parseEntrySelection_payload (parse : String → Except String Json) (text : String)
    (grouped : List (String × List Nat)) (minRun : Nat) (htext : text ≠ "")
    (hparse : parse text = .ok (payload grouped minRun))
    (hkeys : (grouped.map Prod.fst).Nodup)
    (hbound : ∀ group ∈ grouped, ∀ value ∈ group.2, value ≤ 2 ^ 64 - 2) :
    ∃ selection, parseEntrySelection parse text = .ok (some selection) ∧
      ∀ group ∈ grouped, ∃ candidates, selection.lookup group.1 = some candidates ∧
        Normalized candidates.intervals ∧
        ∀ entry : Nat, (∃ i ∈ candidates.intervals, i.covers entry) ↔ entry ∈ group.2 := by
  refine ⟨selectionOf grouped minRun, ?_, ?_⟩
  · rw [parseEntrySelection, if_neg htext, hparse, payload]
    dsimp only
    rw [parseSources_encode grouped minRun hbound]
  · intro group hgroup
    refine ⟨_, lookup_selectionOf minRun hkeys hgroup, CandidateIntervals.normalized _, ?_⟩
    intro entry
    exact (normalizeIntervals_covers _ entry).trans
      (encodedIntervals_covers group.2 minRun (hbound group hgroup) entry)

/-- A file the script writes with `--min-run 4`. -/
def adaptiveText : String :=
  "\x7b\"a\":\x7b\"entries_delta\":\x7b\"base\":10,\"deltas\":[10]\x7d,\"ranges\":[[1,5]]\x7d," ++
    "\"b\":\x7b\"entries_delta\":\x7b\"base\":7,\"deltas\":[]\x7d\x7d\x7d\n"

def adaptiveGroups : List (String × List Nat) :=
  [("a", [20, 1, 2, 4, 3, 10, 2]), ("b", [7])]

/-- The JSON library on that file. -/
def parseAdaptive (text : String) : Except String Json :=
  if text = adaptiveText then
    .ok (.object
      [("a", .object
        [("entries_delta", .object [("base", .integer 10), ("deltas", .array [.integer 10])]),
          ("ranges", .array [.array [.integer 1, .integer 5]])]),
        ("b", .object
          [("entries_delta", .object [("base", .integer 7), ("deltas", .array [])])])])
  else .error "[json.exception.parse_error.101] parse error"

theorem encode_adaptive : parseAdaptive adaptiveText = .ok (payload adaptiveGroups 4) := by
  have hset : [20, 1, 2, 4, 3, 10, 2].toFinset = [1, 2, 3, 4, 10, 20].toFinset := by decide
  have hfirst : sortedSet [20, 1, 2, 4, 3, 10, 2] = [1, 2, 3, 4, 10, 20] := by
    rw [sortedSet, hset]
    exact (List.toFinset_sort (· ≤ ·) (by decide)).mpr (by decide)
  have hsecond : sortedSet [7] = [7] :=
    (List.toFinset_sort (· ≤ ·) (by decide)).mpr (by decide)
  have hruns : splitRuns 4 [1, 2, 3, 4, 10, 20] = ([(1, 5)], [10, 20]) := by
    simp [splitRuns, takeRun]
  have hrun : splitRuns 4 [7] = ([], [7]) := by
    simp [splitRuns, takeRun]
  rw [parseAdaptive, if_pos rfl]
  simp only [payload, adaptiveGroups, List.map_cons, List.map_nil, encode, hfirst, hsecond,
    hruns, hrun]
  rfl

theorem parseEntrySelection_adaptive :
    ∃ selection, parseEntrySelection parseAdaptive adaptiveText = .ok (some selection) ∧
      ∀ group ∈ adaptiveGroups, ∃ candidates, selection.lookup group.1 = some candidates ∧
        Normalized candidates.intervals ∧
        ∀ entry : Nat, (∃ i ∈ candidates.intervals, i.covers entry) ↔ entry ∈ group.2 :=
  parseEntrySelection_payload parseAdaptive adaptiveText adaptiveGroups 4
    (by decide +kernel) encode_adaptive (by decide +kernel) (by decide +kernel)

end BuildEntrySelection

end RootLake.Dataset

import RootLake.Reader.PathReader

/-!
# The hybrid reader never mixes decoders

An entry is served by one decoder, whose complete result it delivers. As long as the
reader is active every entry is served by the serialized decoder, and the entries under
validation equal what the object decoder gives; once the reader has fallen back, every
entry is served by the object decoder (`hybrid_reader`).
-/

namespace RootLake

open Serialized

namespace RootPathReader

variable {mem : RootMemory} {primitiveText : RootPrimitiveValue → String} {codec : Codec}

/-- The pages of an entry, put together. -/
def joined (pages : List NumericPage) : Buffers where
  values := pages.flatMap fun page => page.values
  indices := pages.flatMap fun page => page.indices

/-- The complete result of the serialized decoder for an entry: the values of the whole
    entry, or all its pages. -/
inductive SerializedResult (codec : Codec) (source : EntrySource) : Buffers → Prop
  | values : source.decode.failure = none →
      SerializedResult codec source ⟨source.decode.values, source.decode.indices⟩
  | pages {cursor : SerializedVectorPageCursor} {values : List RootPrimitiveValue}
      {indices : List Int} : source.page = .ok cursor →
      cursor.contents codec = .ok (values, indices) →
      SerializedResult codec source ⟨values, indices⟩

/-- The complete result of the object decoder for an entry. -/
inductive ObjectResult (mem : RootMemory) (levels : List PathLevel) (source : EntrySource) :
    Buffers → Prop
  | missing : source.object = 0 → ObjectResult mem levels source {}
  | values {result : ReadResult} : source.object ≠ 0 →
      collectDirect mem source.object levels (-1) source.entryId {} = .ok result →
      ObjectResult mem levels source result.buffers

/-- An entry that one decoder served, completely. -/
def Served (decoder : RootNumericPageSource) (result : Buffers → Prop)
    (pages : List NumericPage) : Prop :=
  (∀ page ∈ pages, page.source = decoder) ∧ result (joined pages)

/-- An entry that equals what the object decoder gives in the validation context: the same
    indices, and values that compare equal, NaN with NaN. -/
def Validated (mem : RootMemory) (levels : List PathLevel) (source : EntrySource)
    (pages : List NumericPage) : Prop :=
  source.reference ≠ 0 ∧ ∃ result,
    collectDirect mem source.reference levels (-1) 0 {} = .ok result ∧
      equalDecodedValues (joined pages).values (joined pages).indices result.buffers.values
        result.buffers.indices = true

/-! ### Pages -/

theorem readNumericPage_serialized {reader next : RootPathReader} {rows : Nat}
    {page : NumericPage} (hmore : reader.page.hasMore = true)
    (h : reader.readNumericPage mem codec rows = .ok (page, next)) :
    ∃ read : SerializedVectorPageCursor.Page,
      reader.page.readPage codec rows = .ok (some read) ∧
        page = ⟨.serialized, read.values, read.indices⟩ ∧ next = { reader with page := read.next } := by
  unfold readNumericPage at h
  by_cases hrows : rows = 0
  · rw [if_pos hrows] at h
    exact absurd h (by simp)
  rw [if_neg hrows, if_pos hmore] at h
  cases hread : reader.page.readPage codec rows with
  | error reason =>
    rw [hread] at h
    exact absurd h (by simp)
  | ok read =>
    rw [hread] at h
    cases read with
    | none =>
      have hnone := SerializedVectorPageCursor.readPage_none codec hrows hread
      rw [hmore] at hnone
      exact absurd hnone (by simp)
    | some read =>
      simp only [Except.ok.injEq, Prod.mk.injEq] at h
      exact ⟨read, rfl, h.1.symm, h.2.symm⟩

/-- Without an open page there is nothing to read. -/
theorem readNumericPage_closed {reader : RootPathReader} (hmore : reader.page.hasMore = false)
    (hcursor : reader.cursor.complete = true) {rows : Nat} (hrows : 1 ≤ rows) :
    reader.readNumericPage mem codec rows = .ok (⟨.none, [], []⟩, reader) := by
  unfold readNumericPage
  rw [if_neg (by omega), if_neg (by simp [hmore]), if_pos (by simp [hasObjectPage, hcursor])]

/-- What reading the pages of an entry leaves of the reader. -/
structure SameReader (reader next : RootPathReader) : Prop where
  levels : next.levels = reader.levels
  plan : next.plan = reader.plan
  options : next.options = reader.options
  serializedActive : next.serializedActive = reader.serializedActive
  fallbackRecorded : next.fallbackRecorded = reader.fallbackRecorded
  validationRemaining : next.validationRemaining = reader.validationRemaining

theorem SameReader.refl (reader : RootPathReader) : SameReader reader reader :=
  ⟨rfl, rfl, rfl, rfl, rfl, rfl⟩

theorem SameReader.trans {a b c : RootPathReader} (h : SameReader a b) (h' : SameReader b c) :
    SameReader a c :=
  ⟨h'.levels.trans h.levels, h'.plan.trans h.plan, h'.options.trans h.options,
    h'.serializedActive.trans h.serializedActive,
    h'.fallbackRecorded.trans h.fallbackRecorded,
    h'.validationRemaining.trans h.validationRemaining⟩

/-- Serialized pages: they are all serialized, and together what the cursor has. -/
theorem serialized_pages (calls : Nat) {sizes : Nat → Nat} (hsizes : ∀ k, 1 ≤ sizes k)
    {reader : RootPathReader} (hcursor : reader.cursor.complete = true)
    {pages : List NumericPage} {ending : PagesEnding}
    (h : reader.readNumericPages mem codec calls sizes = (pages, ending)) :
    (∀ page ∈ pages, page.source = .serialized) ∧
      ∀ next, ending = .finished next →
        SameReader reader next ∧ next.hasNumericPage = false ∧
          reader.page.contents codec = .ok ((joined pages).values, (joined pages).indices) := by
  induction calls generalizing reader sizes pages ending with
  | zero =>
    simp only [readNumericPages, Prod.mk.injEq] at h
    obtain ⟨rfl, rfl⟩ := h
    exact ⟨fun _ hp => absurd hp List.not_mem_nil, fun _ hend => nomatch hend⟩
  | succ calls ih =>
    cases hmore : reader.page.hasMore with
    | false =>
      simp only [readNumericPages, readNumericPage_closed hmore hcursor (hsizes 0), if_true,
        Prod.mk.injEq] at h
      obtain ⟨rfl, rfl⟩ := h
      refine ⟨fun _ hp => absurd hp List.not_mem_nil, fun next hend => ?_⟩
      obtain rfl := PagesEnding.finished.inj hend
      exact ⟨.refl _, by simp [hasNumericPage, hasObjectPage, hmore, hcursor],
        SerializedVectorPageCursor.contents_of_not_hasMore codec hmore⟩
    | true =>
      cases hread : reader.readNumericPage mem codec (sizes 0) with
      | error e =>
        simp only [readNumericPages, hread, Prod.mk.injEq] at h
        obtain ⟨rfl, rfl⟩ := h
        exact ⟨fun _ hp => absurd hp List.not_mem_nil, fun _ hend => nomatch hend⟩
      | ok result =>
        obtain ⟨page, next⟩ := result
        obtain ⟨read, hpage, rfl, rfl⟩ := readNumericPage_serialized hmore hread
        simp only [readNumericPages, hread, reduceCtorEq, if_false, Prod.mk.injEq] at h
        obtain ⟨rfl, rfl⟩ := h
        have hnext : ({ reader with page := read.next } : RootPathReader).cursor.complete = true :=
          hcursor
        obtain ⟨hsource, hfinished⟩ := ih (fun k => hsizes (k + 1)) hnext rfl
        refine ⟨?_, fun last hend => ?_⟩
        · intro p hp
          rcases List.mem_cons.mp hp with rfl | hp
          · rfl
          · exact hsource p hp
        · obtain ⟨hsame, hclosed, hcontents⟩ := hfinished last hend
          refine ⟨?_, hclosed, ?_⟩
          · have hstep : SameReader reader { reader with page := read.next } :=
              ⟨rfl, rfl, rfl, rfl, rfl, rfl⟩
            exact hstep.trans hsame
          · rw [SerializedVectorPageCursor.contents_of_readPage codec hpage, hcontents]
            rfl

/-- The page that the rows of a cursor's page become. -/
def objectPage (page : ReadResult) : NumericPage :=
  ⟨.object, page.buffers.values, page.buffers.indices⟩

theorem readPage_false {cursor next : OffsetValueCursor} {rows : Nat} {page : ReadResult}
    (h : cursor.readPage mem rows = .ok (false, page, next)) : next.complete = true := by
  unfold OffsetValueCursor.readPage at h
  by_cases hrows : rows = 0
  · rw [if_pos hrows] at h
    exact absurd h (by simp)
  rw [if_neg hrows] at h
  by_cases hcomplete : cursor.complete
  · rw [if_pos hcomplete] at h
    simp only [Except.ok.injEq, Prod.mk.injEq] at h
    exact h.2.2 ▸ hcomplete
  · rw [if_neg hcomplete] at h
    cases hrun : runTraversal mem (cursorPageSink rows cursor.entryId cursor.resumeIndices)
        cursor.rootObject cursor.levels ⟨cursor.previousEmitted, {}, []⟩ with
    | error e =>
      simp only [hrun, bind, Except.bind] at h
      exact absurd h (by simp)
    | ok result =>
      simp only [hrun, bind, Except.bind] at h
      split_ifs at h
      · simp only [Except.ok.injEq, Prod.mk.injEq] at h
        exact h.2.2 ▸ rfl
      · simp at h

theorem readNumericPage_object {reader next : RootPathReader} {rows : Nat} {page : NumericPage}
    (hmore : reader.page.hasMore = false) (hcursor : reader.cursor.complete = false)
    (h : reader.readNumericPage mem codec rows = .ok (page, next)) :
    (∃ read cursor, reader.cursor.readPage mem rows = .ok (false, read, cursor) ∧
      page = ⟨.none, [], []⟩ ∧ next = { reader with cursor := cursor }) ∨
    ∃ read cursor, reader.cursor.readPage mem rows = .ok (true, read, cursor) ∧
      page = objectPage read ∧ next = { reader with cursor := cursor } := by
  unfold readNumericPage at h
  by_cases hrows : rows = 0
  · rw [if_pos hrows] at h
    exact absurd h (by simp)
  rw [if_neg hrows, if_neg (by simp [hmore]), if_neg (by simp [hasObjectPage, hcursor])] at h
  cases hread : reader.cursor.readPage mem rows with
  | error e =>
    rw [hread] at h
    exact absurd h (by simp)
  | ok result =>
    obtain ⟨produced, read, cursor⟩ := result
    rw [hread] at h
    cases produced with
    | false =>
      simp only [Except.ok.injEq, Prod.mk.injEq] at h
      exact .inl ⟨read, cursor, rfl, h.1.symm, h.2.symm⟩
    | true =>
      dsimp only at h
      split_ifs at h
      simp only [Except.ok.injEq, Prod.mk.injEq] at h
      exact .inr ⟨read, cursor, rfl, h.1.symm, h.2.symm⟩

/-- Object pages: they are all of the object decoder, and the pages of its cursor. -/
theorem object_pages (calls : Nat) {sizes : Nat → Nat} (hsizes : ∀ k, 1 ≤ sizes k)
    {reader : RootPathReader} (hmore : reader.page.hasMore = false)
    {pages : List NumericPage} {ending : PagesEnding}
    (h : reader.readNumericPages mem codec calls sizes = (pages, ending)) :
    (∀ page ∈ pages, page.source = .object) ∧
      ∀ next, ending = .finished next →
        SameReader reader next ∧ next.hasNumericPage = false ∧
          ∃ reads, readPages mem calls sizes reader.cursor = (reads, .exhausted) ∧
            pages = reads.map objectPage := by
  induction calls generalizing reader sizes pages ending with
  | zero =>
    simp only [readNumericPages, Prod.mk.injEq] at h
    obtain ⟨rfl, rfl⟩ := h
    exact ⟨fun _ hp => absurd hp List.not_mem_nil, fun _ hend => nomatch hend⟩
  | succ calls ih =>
    cases hcursor : reader.cursor.complete with
    | true =>
      simp only [readNumericPages, readNumericPage_closed hmore hcursor (hsizes 0), if_true,
        Prod.mk.injEq] at h
      obtain ⟨rfl, rfl⟩ := h
      refine ⟨fun _ hp => absurd hp List.not_mem_nil, fun next hend => ?_⟩
      obtain rfl := PagesEnding.finished.inj hend
      exact ⟨.refl _, by simp [hasNumericPage, hasObjectPage, hmore, hcursor], [],
        readPages_complete hcursor calls hsizes, rfl⟩
    | false =>
      cases hread : reader.readNumericPage mem codec (sizes 0) with
      | error e =>
        simp only [readNumericPages, hread, Prod.mk.injEq] at h
        obtain ⟨rfl, rfl⟩ := h
        exact ⟨fun _ hp => absurd hp List.not_mem_nil, fun _ hend => nomatch hend⟩
      | ok result =>
        obtain ⟨page, next⟩ := result
        rcases readNumericPage_object hmore hcursor hread with
          ⟨read, cursor, hpage, rfl, rfl⟩ | ⟨read, cursor, hpage, rfl, rfl⟩
        · simp only [readNumericPages, hread, if_true, Prod.mk.injEq] at h
          obtain ⟨rfl, rfl⟩ := h
          refine ⟨fun _ hp => absurd hp List.not_mem_nil, fun last hend => ?_⟩
          obtain rfl := PagesEnding.finished.inj hend
          refine ⟨⟨rfl, rfl, rfl, rfl, rfl, rfl⟩, ?_, [], by simp only [readPages, hpage], rfl⟩
          simp [hasNumericPage, hasObjectPage, hmore, readPage_false hpage]
        · simp only [readNumericPages, hread, objectPage, reduceCtorEq, if_false,
            Prod.mk.injEq] at h
          obtain ⟨rfl, rfl⟩ := h
          have hnext : ({ reader with cursor := cursor } : RootPathReader).page.hasMore = false :=
            hmore
          obtain ⟨hsource, hfinished⟩ := ih (fun k => hsizes (k + 1)) hnext rfl
          refine ⟨?_, fun last hend => ?_⟩
          · intro p hp
            rcases List.mem_cons.mp hp with rfl | hp
            · rfl
            · exact hsource p hp
          · obtain ⟨hsame, hclosed, reads, hreads, hpages⟩ := hfinished last hend
            refine ⟨?_, hclosed, read :: reads, ?_, ?_⟩
            · have hstep : SameReader reader { reader with cursor := cursor } :=
                ⟨rfl, rfl, rfl, rfl, rfl, rfl⟩
              exact hstep.trans hsame
            · simp only [readPages, hpage, hreads]
            · rw [List.map_cons, hpages]
              rfl

/-- Pages read to the end do not depend on how many calls were allowed. -/
theorem readPages_det {calls calls' : Nat} {sizes : Nat → Nat} {cursor : OffsetValueCursor}
    {pages pages' : List ReadResult} {ending ending' : Reading}
    (h : readPages mem calls sizes cursor = (pages, ending)) (hend : ending ≠ .unfinished)
    (h' : readPages mem calls' sizes cursor = (pages', ending')) (hend' : ending' ≠ .unfinished) :
    pages = pages' ∧ ending = ending' := by
  induction calls generalizing calls' sizes cursor pages ending pages' with
  | zero =>
    simp only [readPages, Prod.mk.injEq] at h
    exact absurd h.2.symm hend
  | succ calls ih =>
    cases calls' with
    | zero =>
      simp only [readPages, Prod.mk.injEq] at h'
      exact absurd h'.2.symm hend'
    | succ calls' =>
      simp only [readPages] at h h'
      cases hread : cursor.readPage mem (sizes 0) with
      | error e =>
        simp only [hread, Prod.mk.injEq] at h h'
        exact ⟨h.1.symm.trans h'.1, h.2.symm.trans h'.2⟩
      | ok result =>
        obtain ⟨produced, page, next⟩ := result
        cases produced with
        | false =>
          simp only [hread, Prod.mk.injEq] at h h'
          exact ⟨h.1.symm.trans h'.1, h.2.symm.trans h'.2⟩
        | true =>
          simp only [hread, Prod.mk.injEq] at h h'
          obtain ⟨rfl, rfl⟩ := h
          obtain ⟨rfl, rfl⟩ := h'
          obtain ⟨hpages, hending⟩ := ih rfl hend rfl
          exact ⟨congrArg _ hpages, hending⟩

theorem joined_objectPages (reads : List ReadResult) :
    joined (reads.map objectPage) =
      ReadResult.buffers { rows := reads.flatMap fun page => page.rows } := by
  simp [joined, objectPage, ReadResult.buffers, List.flatMap_map, List.map_flatMap,
    List.flatMap_assoc]

/-- The object pages of an entry are the complete result of the object decoder. -/
theorem object_result {calls : Nat} {sizes : Nat → Nat} (hsizes : ∀ k, 1 ≤ sizes k)
    {object : Address} {levels : List PathLevel} {entryId : Int64} {reads : List ReadResult}
    (h : readPages mem calls sizes (.openEntry object levels entryId) = (reads, .exhausted)) :
    ∃ result, collectDirect mem object levels (-1) entryId {} = .ok result ∧
      joined (reads.map objectPage) = result.buffers := by
  obtain ⟨calls', pages, ending, hread, hending⟩ :=
    readPages_eq_collectDirect mem object levels entryId sizes hsizes
  cases hcollect : collectDirect mem object levels (-1) entryId {} with
  | error e =>
    rw [hcollect] at hending
    obtain ⟨rfl, -⟩ := hending
    exact absurd (readPages_det h (by simp) hread (by simp)).2 (by simp)
  | ok result =>
    rw [hcollect] at hending
    obtain ⟨rfl, hrows, -⟩ := hending
    obtain ⟨rfl, -⟩ := readPages_det h (by simp) hread (by simp)
    refine ⟨result, rfl, ?_⟩
    rw [joined_objectPages, hrows]
    rfl

/-! ### Starting an entry -/

theorem activateFallback_ok {reader next : RootPathReader} {reason : String} {activated : Bool}
    (h : reader.activateFallback reason = .ok (activated, next)) :
    next = { reader with serializedActive := false, fallbackRecorded := true } ∧
      activated = !reader.fallbackRecorded := by
  unfold activateFallback at h
  by_cases hmode : reader.options.readerMode = .serialized
  · rw [if_pos hmode] at h
    exact absurd h (by simp)
  rw [if_neg hmode] at h
  cases hrecorded : reader.fallbackRecorded with
  | true =>
    simp only [hrecorded, if_true, Except.ok.injEq, Prod.mk.injEq] at h
    exact ⟨h.2.symm, h.1.symm⟩
  | false =>
    simp only [hrecorded, Bool.false_eq_true, if_false, Except.ok.injEq, Prod.mk.injEq] at h
    exact ⟨h.2.symm, h.1.symm⟩

/-- An active reader has not recorded a fallback. -/
def Sound (reader : RootPathReader) : Prop :=
  reader.serializedActive = true → reader.fallbackRecorded = false

theorem fallBack_ok {reader next : RootPathReader} {reason : String} {decoded : Bool}
    {read : RootPathReadResult} (hfresh : reader.fallbackRecorded = false)
    (h : reader.fallBack reason decoded = .ok (read, next)) :
    next = { reader with serializedActive := false, fallbackRecorded := true } ∧
      read = ⟨.objectFallback, decoded⟩ := by
  unfold fallBack at h
  cases hfallback : reader.activateFallback reason with
  | error e =>
    rw [hfallback] at h
    exact absurd h (by simp [Except.map])
  | ok result =>
    obtain ⟨activated, after⟩ := result
    obtain ⟨rfl, rfl⟩ := activateFallback_ok hfallback
    rw [hfallback, hfresh] at h
    simp only [Except.map, Bool.not_false, if_true, Except.ok.injEq, Prod.mk.injEq] at h
    exact ⟨h.2.symm, h.1.symm⟩

/-- The reader after a fallback, without an open page. -/
def fallenBack (reader : RootPathReader) : RootPathReader :=
  { reader with page := {}, serializedActive := false, fallbackRecorded := true }

/-- How an attempt at the values of a whole entry ends. -/
inductive TryOutcome (mem : RootMemory) (reader : RootPathReader) (source : EntrySource) :
    RootPathReadResult → RootPathReader → Prop
  | served : source.decode.failure = none → reader.validationRemaining = 0 →
      TryOutcome mem reader source ⟨.serialized, true⟩ { reader with page := {} }
  | validated {result : ReadResult} : source.decode.failure = none →
      0 < reader.validationRemaining → source.reference ≠ 0 →
      collectDirect mem source.reference reader.levels (-1) 0 {} = .ok result →
      equalDecodedValues source.decode.values source.decode.indices result.buffers.values
        result.buffers.indices = true →
      TryOutcome mem reader source ⟨.serialized, true⟩
        { reader with page := {}, validationRemaining := reader.validationRemaining - 1 }
  | fallback (decoded : Bool) :
      TryOutcome mem reader source ⟨.objectFallback, decoded⟩ reader.fallenBack

theorem referenceValues_ok {reader : RootPathReader} {source : EntrySource} {buffers : Buffers}
    (hvalidate : 0 < reader.validationRemaining) (hreference : source.reference ≠ 0)
    (h : reader.referenceValues mem source = .ok buffers) :
    ∃ result, collectDirect mem source.reference reader.levels (-1) 0 {} = .ok result ∧
      buffers = result.buffers := by
  unfold referenceValues collectTypedFlat at h
  rw [if_pos (by simp [hvalidate, hreference])] at h
  cases hcollect : collectDirect mem source.reference reader.levels (-1) 0 {} with
  | error e =>
    rw [hcollect] at h
    exact absurd h (by simp)
  | ok result =>
    rw [hcollect] at h
    dsimp only at h
    split at h
    · exact absurd h (by simp)
    · exact ⟨result, rfl, (Except.ok.inj h).symm⟩

theorem decodeValidated_ok {reader next : RootPathReader} {source : EntrySource}
    (hfresh : reader.fallbackRecorded = false) {reference : Buffers}
    (hreference : reader.referenceValues mem source = .ok reference)
    {read : RootPathReadResult}
    (h : reader.decodeValidated primitiveText source reference = .ok (read, next)) :
    TryOutcome mem reader source read next := by
  unfold decodeValidated at h
  cases hfailure : source.decode.failure with
  | some reason =>
    rw [hfailure] at h
    obtain ⟨rfl, rfl⟩ := fallBack_ok (by exact hfresh) h
    exact .fallback false
  | none =>
    rw [hfailure] at h
    dsimp only at h
    by_cases hvalidate : reader.validationRemaining > 0
    · rw [if_pos hvalidate] at h
      by_cases hdiffer : (decide (source.reference = 0) ||
          !equalDecodedValues source.decode.values source.decode.indices reference.values
            reference.indices) = true
      · rw [if_pos hdiffer] at h
        obtain ⟨rfl, rfl⟩ := fallBack_ok (by exact hfresh) h
        exact .fallback true
      · rw [if_neg hdiffer] at h
        simp only [Except.ok.injEq, Prod.mk.injEq] at h
        obtain ⟨rfl, rfl⟩ := h
        simp only [Bool.or_eq_true, decide_eq_true_eq, not_or, Bool.not_eq_true',
          Bool.not_eq_false] at hdiffer
        obtain ⟨result, hcollect, rfl⟩ := referenceValues_ok hvalidate hdiffer.1 hreference
        exact .validated hfailure hvalidate hdiffer.1 hcollect hdiffer.2
    · rw [if_neg hvalidate] at h
      simp only [Except.ok.injEq, Prod.mk.injEq] at h
      obtain ⟨rfl, rfl⟩ := h
      exact .served hfailure (by omega)

/-- A reader that serves objects: `base` is `reader`, or what is left of it after a
    fallback. -/
structure ServesObjects (reader base : RootPathReader) : Prop where
  levels : base.levels = reader.levels
  inactive : base.serializedActive = false
  page : base.page = {}
  cursor : base.cursor = {}

/-- How an entry is begun. -/
inductive BeginOutcome (mem : RootMemory) (reader : RootPathReader) (source : EntrySource) :
    RootNumericEntryRoute → RootPathReader → Buffers → Prop
  | page {cursor : SerializedVectorPageCursor} : reader.serializedActive = true →
      reader.validationRemaining = 0 → source.page = .ok cursor →
      BeginOutcome mem reader source .serializedPage { reader.endNumericPage with page := cursor }
        {}
  | values {read : RootPathReadResult} {next : RootPathReader} :
      reader.serializedActive = true → TryOutcome mem reader.endNumericPage source read next →
      read.route = .serialized →
      BeginOutcome mem reader source .serializedValues next
        ⟨source.decode.values, source.decode.indices⟩
  | object {base : RootPathReader} {buffers : Buffers} : source.object ≠ 0 →
      ServesObjects reader base →
      BeginOutcome mem reader source .objectPage
        { base with cursor := .openEntry source.object reader.levels source.entryId } buffers
  | missing {base : RootPathReader} {buffers : Buffers} : source.object = 0 →
      ServesObjects reader base → BeginOutcome mem reader source .none base buffers

theorem beginObject_ok {reader base next : RootPathReader} {source : EntrySource}
    {attemptDecoded fallbackActivated : Bool} {buffers buffers' : Buffers}
    {started : RootNumericEntryStartResult} (hbase : ServesObjects reader base)
    (h : base.beginObject source attemptDecoded fallbackActivated buffers =
      .ok (started, next, buffers')) :
    BeginOutcome mem reader source started.route next buffers' := by
  unfold beginObject at h
  by_cases hobject : source.object = 0
  · rw [if_pos hobject] at h
    simp only [Except.ok.injEq, Prod.mk.injEq] at h
    obtain ⟨rfl, rfl, rfl⟩ := h
    exact .missing hobject hbase
  · rw [if_neg hobject] at h
    unfold beginObjectEntry at h
    split_ifs at h
    · exact absurd h (by simp [Except.map])
    · simp only [Except.map, Except.ok.injEq, Prod.mk.injEq] at h
      obtain ⟨rfl, rfl, rfl⟩ := h
      have hentry : BeginOutcome mem reader source .objectPage
          { base with cursor := .openEntry source.object reader.levels source.entryId } buffers :=
        .object hobject hbase
      rw [← hbase.levels] at hentry
      exact hentry

theorem beginWholeEntry_ok {reader next : RootPathReader} {source : EntrySource}
    {fallbackActivated : Bool} {buffers : Buffers} {started : RootNumericEntryStartResult}
    (hsound : reader.Sound)
    (h : reader.endNumericPage.beginWholeEntry mem primitiveText source fallbackActivated =
      .ok (started, next, buffers)) :
    BeginOutcome mem reader source started.route next buffers := by
  unfold beginWholeEntry at h
  cases hactive : reader.serializedActive with
  | false =>
    rw [if_neg (by simp [endNumericPage, hactive])] at h
    have hbase : ServesObjects reader reader.endNumericPage := ⟨rfl, hactive, rfl, rfl⟩
    exact beginObject_ok hbase h
  | true =>
    rw [if_pos (by simp [endNumericPage, hactive])] at h
    unfold tryReadSerialized at h
    rw [if_neg (by simp [endNumericPage, hactive])] at h
    cases href : reader.endNumericPage.referenceValues mem source with
    | error e =>
      rw [href] at h
      exact absurd h (by simp)
    | ok reference =>
      rw [href] at h
      dsimp only at h
      cases hdecode : reader.endNumericPage.decodeValidated primitiveText source reference with
      | error e =>
        rw [hdecode] at h
        exact absurd h (by simp [Except.map])
      | ok result =>
        obtain ⟨read, after⟩ := result
        have hfresh : reader.endNumericPage.fallbackRecorded = false := hsound hactive
        have houtcome := decodeValidated_ok hfresh href hdecode
        rw [hdecode] at h
        simp only [Except.map] at h
        by_cases hroute : read.route = .serialized
        · rw [if_pos hroute] at h
          simp only [Except.ok.injEq, Prod.mk.injEq] at h
          obtain ⟨rfl, rfl, rfl⟩ := h
          exact .values hactive houtcome hroute
        · rw [if_neg hroute] at h
          cases houtcome with
          | served => exact absurd rfl hroute
          | validated => exact absurd rfl hroute
          | fallback decoded =>
            have hbase : ServesObjects reader reader.endNumericPage.fallenBack :=
              ⟨rfl, rfl, rfl, rfl⟩
            exact beginObject_ok hbase h

theorem beginNumericEntry_ok {reader next : RootPathReader} {source : EntrySource}
    {buffers : Buffers} {started : RootNumericEntryStartResult} (hsound : reader.Sound)
    (h : reader.beginNumericEntry mem primitiveText source = .ok (started, next, buffers)) :
    BeginOutcome mem reader source started.route next buffers := by
  unfold beginNumericEntry at h
  by_cases hunread : reader.hasNumericPage
  · rw [if_pos hunread] at h
    exact absurd h (by simp)
  rw [if_neg hunread] at h
  dsimp only at h
  by_cases hpaged : (reader.endNumericPage.serializedActive &&
      reader.endNumericPage.plan.isKind .fixedMember &&
      decide (reader.endNumericPage.validationRemaining = 0)) = true
  · rw [if_pos hpaged] at h
    simp only [Bool.and_eq_true, decide_eq_true_eq] at hpaged
    obtain ⟨⟨hactive, hkind⟩, hvalidated⟩ := hpaged
    unfold beginSerializedPage at h
    rw [if_neg (by simp [hactive, hkind, hvalidated])] at h
    cases hpage : source.page with
    | ok cursor =>
      rw [hpage] at h
      simp only [if_true, Except.ok.injEq, Prod.mk.injEq] at h
      obtain ⟨rfl, rfl, rfl⟩ := h
      exact .page hactive hvalidated hpage
    | error reason =>
      rw [hpage] at h
      dsimp only at h
      cases hfallback : ({ reader.endNumericPage with page := {} } : RootPathReader).fallBack
          reason false with
      | error e =>
        rw [hfallback] at h
        exact absurd h (by simp)
      | ok result =>
        obtain ⟨read, after⟩ := result
        have hfresh : ({ reader.endNumericPage with page := {} } :
            RootPathReader).fallbackRecorded = false := hsound hactive
        obtain ⟨rfl, rfl⟩ := fallBack_ok hfresh hfallback
        rw [hfallback] at h
        simp only [reduceCtorEq, if_false, beginWholeEntry, Bool.false_eq_true] at h
        have hbase : ServesObjects reader reader.endNumericPage.fallenBack :=
          ⟨rfl, rfl, rfl, rfl⟩
        exact beginObject_ok hbase h
  · rw [if_neg hpaged] at h
    exact beginWholeEntry_ok hsound h

/-! ### Entries -/

/-- The reader between two entries. -/
structure Idle (levels : List PathLevel) (reader : RootPathReader) : Prop where
  levels_eq : reader.levels = levels
  sound : reader.Sound
  closed : reader.hasNumericPage = false

/-- An entry that the serialized decoder served: one more validated entry, as long as
    entries are validated. -/
structure ServedSerialized (mem : RootMemory) (codec : Codec) (levels : List PathLevel)
    (reader : RootPathReader) (source : EntrySource) (pages : List NumericPage)
    (next : RootPathReader) : Prop where
  active : reader.serializedActive = true
  served : Served .serialized (SerializedResult codec source) pages
  validated : 0 < reader.validationRemaining → Validated mem levels source pages
  next_active : next.serializedActive = true
  next_remaining : next.validationRemaining = reader.validationRemaining - 1

/-- An entry that the object decoder served, after which nothing else does. -/
structure ServedByObject (mem : RootMemory) (levels : List PathLevel) (source : EntrySource)
    (pages : List NumericPage) (next : RootPathReader) : Prop where
  served : Served .object (ObjectResult mem levels source) pages
  next_inactive : next.serializedActive = false

theorem joined_singleton (source : RootNumericPageSource) (buffers : Buffers) :
    joined [⟨source, buffers.values, buffers.indices⟩] = buffers := by
  simp [joined]

/-- The whole-entry values of the serialized decoder. -/
theorem served_values {levels : List PathLevel} {reader next : RootPathReader}
    {source : EntrySource} (hidle : Idle levels reader) (hactive : reader.serializedActive = true)
    {read : RootPathReadResult} (h : TryOutcome mem reader.endNumericPage source read next)
    (hroute : read.route = .serialized) :
    Idle levels next ∧ ServedSerialized mem codec levels reader source
      [⟨.serialized, source.decode.values, source.decode.indices⟩] next := by
  have hsingle := joined_singleton .serialized ⟨source.decode.values, source.decode.indices⟩
  have hsources : ∀ page ∈ [NumericPage.mk .serialized source.decode.values
      source.decode.indices], page.source = .serialized :=
    fun page hp => List.mem_singleton.mp hp ▸ rfl
  cases h with
  | served hdecode hremaining =>
    refine ⟨⟨hidle.levels_eq, hidle.sound, rfl⟩, hactive, ⟨hsources, ?_⟩, fun hpos => ?_,
      hactive, ?_⟩
    · exact hsingle ▸ .values hdecode
    · exact absurd hremaining (Nat.pos_iff_ne_zero.mp hpos)
    · exact hremaining.trans (by rw [show reader.validationRemaining = 0 from hremaining])
  | @validated result hdecode hremaining hreference hcollect hequal =>
    refine ⟨⟨hidle.levels_eq, hidle.sound, rfl⟩, hactive, ⟨hsources, ?_⟩, fun _ => ?_,
      hactive, rfl⟩
    · exact hsingle ▸ .values hdecode
    · refine ⟨hreference, result, ?_, hsingle ▸ hequal⟩
      rw [← hidle.levels_eq]
      exact hcollect
  | fallback => exact absurd hroute (by simp)

/-- **One entry.** Its pages are all of one decoder; when it is read to its end they are
    that decoder's complete result. -/
theorem readEntry_served {levels : List PathLevel} {reader : RootPathReader}
    (hidle : Idle levels reader) (read : EntryRead) {pages : List NumericPage}
    {ending : PagesEnding} (h : reader.readEntry mem primitiveText codec read = (pages, ending)) :
    (∃ decoder, (∀ page ∈ pages, page.source = decoder) ∧
      (reader.serializedActive = false → decoder = .object)) ∧
    ∀ next, ending = .finished next → Idle levels next ∧
      (ServedSerialized mem codec levels reader read.source pages next ∨
        ServedByObject mem levels read.source pages next) := by
  unfold readEntry at h
  cases hbegin : reader.beginNumericEntry mem primitiveText read.source with
  | error e =>
    rw [hbegin] at h
    simp only [Prod.mk.injEq] at h
    obtain ⟨rfl, rfl⟩ := h
    exact ⟨⟨.object, fun _ hp => absurd hp List.not_mem_nil, fun _ => rfl⟩,
      fun _ hend => nomatch hend⟩
  | ok result =>
    obtain ⟨⟨route, decoded, activated⟩, begun, buffers⟩ := result
    have houtcome := beginNumericEntry_ok hidle.sound hbegin
    rw [hbegin] at h
    dsimp only at h houtcome
    cases houtcome with
    | @page cursor hactive hremaining hpage =>
      have hcursor : ({ reader.endNumericPage with page := cursor } :
          RootPathReader).cursor.complete = true := rfl
      obtain ⟨hsources, hfinished⟩ := serialized_pages read.calls read.sizes_pos hcursor h
      refine ⟨⟨.serialized, hsources, fun hinactive => ?_⟩, fun next hend => ?_⟩
      · rw [hactive] at hinactive
        exact absurd hinactive (by simp)
      · obtain ⟨hsame, hclosed, hcontents⟩ := hfinished next hend
        refine ⟨⟨hsame.levels.trans hidle.levels_eq, ?_, hclosed⟩,
          .inl ⟨hactive, ⟨hsources, .pages hpage hcontents⟩, fun hpos => ?_, ?_, ?_⟩⟩
        · intro hnext
          rw [hsame.fallbackRecorded]
          exact hidle.sound hactive
        · exact absurd hremaining (Nat.pos_iff_ne_zero.mp hpos)
        · exact hsame.serializedActive.trans hactive
        · have hnext : next.validationRemaining = reader.validationRemaining :=
            hsame.validationRemaining
          omega
    | values hactive htry hroute =>
      simp only [Prod.mk.injEq] at h
      obtain ⟨rfl, rfl⟩ := h
      obtain ⟨hnext, hserved⟩ := @served_values mem codec _ _ _ _ hidle hactive _ htry hroute
      refine ⟨⟨.serialized, hserved.served.1, fun hinactive => ?_⟩, fun next hend => ?_⟩
      · rw [hactive] at hinactive
        exact absurd hinactive (by simp)
      · obtain rfl := PagesEnding.finished.inj hend
        exact ⟨hnext, .inl hserved⟩
    | @object base _ hobject hbase =>
      have hmore : ∀ cursor, ({ base with cursor := cursor } : RootPathReader).page.hasMore =
          false := by
        intro cursor
        rw [show ({ base with cursor := cursor } : RootPathReader).page = {} from hbase.page]
        rfl
      obtain ⟨hsources, hfinished⟩ := object_pages read.calls read.sizes_pos (hmore _) h
      refine ⟨⟨.object, hsources, fun _ => rfl⟩, fun next hend => ?_⟩
      obtain ⟨hsame, hclosed, reads, hreads, rfl⟩ := hfinished next hend
      obtain ⟨result, hcollect, hjoined⟩ := object_result read.sizes_pos hreads
      have hinactive : next.serializedActive = false :=
        hsame.serializedActive.trans hbase.inactive
      refine ⟨⟨hsame.levels.trans (hbase.levels.trans hidle.levels_eq), ?_, hclosed⟩,
        .inr ⟨⟨hsources, ?_⟩, hinactive⟩⟩
      · intro hactive
        rw [hinactive] at hactive
        exact absurd hactive (by simp)
      · rw [hjoined]
        exact .values hobject (hidle.levels_eq ▸ hcollect)
    | @missing base _ hobject hbase =>
      simp only [Prod.mk.injEq] at h
      obtain ⟨rfl, rfl⟩ := h
      refine ⟨⟨.object, fun _ hp => absurd hp List.not_mem_nil, fun _ => rfl⟩,
        fun next hend => ?_⟩
      obtain rfl := PagesEnding.finished.inj hend
      refine ⟨⟨hbase.levels.trans hidle.levels_eq, ?_, ?_⟩,
        .inr ⟨⟨fun _ hp => absurd hp List.not_mem_nil, .missing hobject⟩, hbase.inactive⟩⟩
      · intro hactive
        rw [hbase.inactive] at hactive
        exact absurd hactive (by simp)
      · simp only [hasNumericPage, hasObjectPage, hbase.page, hbase.cursor]
        rfl

/-- The deliveries of a run: first those of the serialized decoder, then those of the object
    decoder. -/
structure RunServed (mem : RootMemory) (codec : Codec) (levels : List PathLevel)
    (remaining : Nat) (early late : List EntryRead) (earlyPages latePages : List (List NumericPage)) :
    Prop where
  serialized : List.Forall₂ (fun read pages =>
    Served .serialized (SerializedResult codec read.source) pages) early earlyPages
  object : List.Forall₂ (fun read pages =>
    Served .object (ObjectResult mem levels read.source) pages) late latePages
  validated : List.Forall₂ (fun read pages => Validated mem levels read.source pages)
    (early.take remaining) (earlyPages.take remaining)

theorem readEntries_served {levels : List PathLevel} (reads : List EntryRead)
    {reader last : RootPathReader} (hidle : Idle levels reader)
    {deliveries : List (List NumericPage)}
    (h : reader.readEntries mem primitiveText codec reads = some (deliveries, last)) :
    Idle levels last ∧ ∃ early late earlyPages latePages, reads = early ++ late ∧
      deliveries = earlyPages ++ latePages ∧
      RunServed mem codec levels reader.validationRemaining early late earlyPages latePages ∧
      (reader.serializedActive = false → early = [] ∧ last.serializedActive = false) := by
  induction reads generalizing reader deliveries with
  | nil =>
    simp only [readEntries, Option.some.injEq, Prod.mk.injEq] at h
    obtain ⟨rfl, rfl⟩ := h
    exact ⟨hidle, [], [], [], [], rfl, rfl, ⟨.nil, .nil, by simp⟩, fun hi => ⟨rfl, hi⟩⟩
  | cons read reads ih =>
    simp only [readEntries] at h
    cases hentry : reader.readEntry mem primitiveText codec read with
    | mk pages ending =>
      rw [hentry] at h
      cases ending with
      | threw e => exact absurd h (by simp)
      | unfinished => exact absurd h (by simp)
      | finished next =>
        dsimp only at h
        obtain ⟨⟨rest, final⟩, hrest, hdeliveries⟩ := Option.map_eq_some_iff.mp h
        simp only [Prod.mk.injEq] at hdeliveries
        obtain ⟨rfl, rfl⟩ := hdeliveries
        obtain ⟨hnext, hserved⟩ := (readEntry_served hidle read hentry).2 next rfl
        obtain ⟨hlast, early, late, earlyPages, latePages, rfl, rfl, hrun, hinactive⟩ :=
          ih hnext hrest
        refine ⟨hlast, ?_⟩
        rcases hserved with hserved | hserved
        · refine ⟨read :: early, late, pages :: earlyPages, latePages, rfl, rfl,
            ⟨.cons hserved.served hrun.serialized, hrun.object, ?_⟩, fun hi => ?_⟩
          · have hvalidated := hrun.validated
            rw [hserved.next_remaining] at hvalidated
            cases hremaining : reader.validationRemaining with
            | zero => exact .nil
            | succ n =>
              rw [hremaining, Nat.add_sub_cancel] at hvalidated
              exact .cons (hserved.validated (by omega)) hvalidated
          · rw [hserved.active] at hi
            exact absurd hi (by simp)
        · obtain ⟨rfl, hfinal⟩ := hinactive hserved.next_inactive
          have hearly := hrun.serialized
          cases hearly
          exact ⟨[], read :: late, [], pages :: latePages, rfl, rfl,
            ⟨.nil, .cons hserved.served hrun.object, by simp⟩, fun _ => ⟨rfl, hfinal⟩⟩

theorem startSerialized_ok {reader next : RootPathReader} {options : RootAccessOptions}
    {rejectionReason : String} {validation : ValidationBinding} {route : RootPathStartRoute}
    (hclosed : reader.hasNumericPage = false)
    (h : reader.startSerialized options rejectionReason validation = .ok (route, next)) :
    Idle reader.levels next ∧ next.validationRemaining = options.validationEntries := by
  have hfallback : ∀ {started after : RootPathReader} {reason : String},
      (started.activateFallback reason).map (fun result => (fallbackRoute result.1, result.2)) =
        .ok (route, after) → started.levels = reader.levels → started.hasNumericPage = false →
      started.validationRemaining = options.validationEntries →
      Idle reader.levels after ∧ after.validationRemaining = options.validationEntries := by
    intro started after reason hmap hlevels hidle hremaining
    cases hactivate : started.activateFallback reason with
    | error e =>
      rw [hactivate] at hmap
      exact absurd hmap (by simp [Except.map])
    | ok result =>
      obtain ⟨activated, fallen⟩ := result
      obtain ⟨rfl, -⟩ := activateFallback_ok hactivate
      rw [hactivate] at hmap
      simp only [Except.map, Except.ok.injEq, Prod.mk.injEq] at hmap
      obtain ⟨-, rfl⟩ := hmap
      exact ⟨⟨hlevels, fun hactive => absurd hactive (by simp), hidle⟩, hremaining⟩
  unfold startSerialized at h
  dsimp only at h
  by_cases hmode : options.readerMode = .object
  · rw [if_pos hmode] at h
    simp only [Except.ok.injEq, Prod.mk.injEq] at h
    obtain ⟨-, rfl⟩ := h
    exact ⟨⟨rfl, fun _ => rfl, hclosed⟩, rfl⟩
  rw [if_neg hmode] at h
  generalize (if (rejectionReason = "" && !reader.plan.supported) = true then
    if reader.plan.rejectionReason = "" then "serialized reader is unavailable"
    else reader.plan.rejectionReason else rejectionReason) = reason at h
  by_cases hreason : reason ≠ ""
  · rw [if_pos hreason] at h
    exact hfallback h rfl hclosed rfl
  · rw [if_neg hreason] at h
    generalize (if options.validationEntries > 0 then validation else .ok ()) = bound at h
    cases bound with
    | error reason => exact hfallback h rfl hclosed rfl
    | ok bound =>
      simp only [Except.ok.injEq, Prod.mk.injEq] at h
      obtain ⟨-, rfl⟩ := h
      refine ⟨⟨rfl, fun _ => rfl, ?_⟩, rfl⟩
      simp only [hasNumericPage, Bool.or_eq_false_iff] at hclosed ⊢
      exact ⟨rfl, hclosed.2⟩

/-- **The hybrid reader never mixes or loses values.** Whatever the decoders answer, the
    entries read to their end are first served by the serialized decoder and then by the
    object decoder, each completely and by one decoder; the first entries, as many as are
    to be validated, equal what the object decoder gives for them. An entry that is cut off
    by an error is of one decoder as well, and of the object decoder once a fallback is
    recorded. -/
theorem hybrid_reader (mem : RootMemory) (primitiveText : RootPrimitiveValue → String)
    (codec : Codec) (levels : List PathLevel) (plan : SerializedReadPlan)
    (options : RootAccessOptions) (rejectionReason : String) (validation : ValidationBinding)
    {route : RootPathStartRoute} {reader : RootPathReader}
    (hstart : startSerialized { levels := levels, plan := plan } options rejectionReason validation =
      .ok (route, reader))
    (reads : List EntryRead) {deliveries : List (List NumericPage)} {last : RootPathReader}
    (hread : reader.readEntries mem primitiveText codec reads = some (deliveries, last)) :
    (∃ early late earlyPages latePages, reads = early ++ late ∧
      deliveries = earlyPages ++ latePages ∧
      RunServed mem codec levels options.validationEntries early late earlyPages latePages) ∧
    ∀ (read : EntryRead) (pages : List NumericPage) (ending : PagesEnding),
      last.readEntry mem primitiveText codec read = (pages, ending) →
      ∃ decoder, (∀ page ∈ pages, page.source = decoder) ∧
        (last.fallbackRecorded = true → decoder = .object) := by
  obtain ⟨hidle, hremaining⟩ := startSerialized_ok (by rfl) hstart
  obtain ⟨hlast, early, late, earlyPages, latePages, hreads, hdeliveries, hrun, -⟩ :=
    readEntries_served reads hidle hread
  refine ⟨⟨early, late, earlyPages, latePages, hreads, hdeliveries, hremaining ▸ hrun⟩, ?_⟩
  intro read pages ending hentry
  obtain ⟨decoder, hsource, hobject⟩ := (readEntry_served hlast read hentry).1
  refine ⟨decoder, hsource, fun hrecorded => hobject ?_⟩
  by_contra hactive
  rw [Bool.not_eq_false] at hactive
  rw [hlast.sound hactive] at hrecorded
  exact absurd hrecorded (by simp)

/-- The values and indices of `readPages_grid`. -/
def gridBuffers : Buffers where
  values := [.signed 204, .signed 208, .signed 212, .signed 216,
    .signed 304, .signed 308, .signed 312, .signed 316]
  indices := [0, 0, 0, 0, 0, 1, 0, 1, 0, 0, 1, 1, 2, 0, 0, 2, 0, 1, 2, 1, 0, 2, 1, 1]

/-- The serialized decoder serves the first entry and fails for the second. -/
def gridReads : List EntryRead :=
  [some "", none].map fun reason =>
    { source := {
        entryId := 7
        decode := if reason.isSome then ⟨none, gridBuffers.values, gridBuffers.indices⟩
          else ⟨some "serialized vector entry is shorter than its header", [], []⟩
        page := .error ""
        reference := 100
        object := 100 }
      sizes := fun _ => 2048
      sizes_pos := fun _ => by decide
      calls := 2 }

theorem hybrid_reader_grid :
    ∃ early late earlyPages latePages, gridReads = early ++ late ∧
      [[⟨.serialized, gridBuffers.values, gridBuffers.indices⟩],
        [⟨.object, gridBuffers.values, gridBuffers.indices⟩]] = earlyPages ++ latePages ∧
      RunServed gridMemory ⟨fun _ => .unknown, fun _ _ => none⟩ gridLevels 1 early late earlyPages
        latePages :=
  (hybrid_reader gridMemory (fun _ => "") ⟨fun _ => .unknown, fun _ _ => none⟩ gridLevels
    { projection := .selected .leafBranch } { validationEntries := 1 } "" (.ok ()) rfl gridReads
    rfl).1

end RootPathReader

end RootLake

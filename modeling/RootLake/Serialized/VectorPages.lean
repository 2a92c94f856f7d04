import RootLake.Serialized.Primitive

/-!
# Paged decoding is whole decoding

The decoder of a whole payload and the page cursor check their arguments separately. What
they check alike is `PayloadFits`; beyond that the one has a limit on the values and the other
a limit on the length of an array without dimensions. Reading pages of any sizes then gives
what the whole decoder gives (`paged_decoding_is_whole_decoding`).
-/

namespace RootLake.Serialized

section Checks

variable {codec : Codec} {bytes : List UInt8} {payloadOffset count maxValuesPerEntry : Nat}
variable {layout : SerializedEntryLayout} {kind : SerializedPrimitiveKind}

/-! ### The checks -/

/-- What both decoders check of a payload. -/
structure PayloadFits (codec : Codec) (bytes : List UInt8) (payloadOffset count : Nat)
    (layout : SerializedEntryLayout) (kind : SerializedPrimitiveKind) : Prop where
  inside : payloadOffset ≤ bytes.length
  layout_ok : validatePrimitiveLayout codec layout (1 + arrayRank layout) = .ok kind
  dimensions_ok : ∀ message, ∃ product,
    dimensionsProduct message layout.arrayDimensions 1 = .ok product ∧
      (layout.arrayDimensions.isEmpty = false → product = layout.fixedArrayLength)
  count_le : count ≤ int32Max
  prefix_small : layout.bytesBeforeValuePerElement ≠ 0 →
    count ≤ uint64Max / layout.bytesBeforeValuePerElement
  values_small : count ≤ uint64Max / layout.fixedArrayLength
  bytes_small : count * layout.fixedArrayLength ≤ uint64Max / layout.valueBytes
  prefix_inside : count * layout.bytesBeforeValuePerElement ≤ bytes.length - payloadOffset
  values_inside : count * layout.fixedArrayLength * layout.valueBytes ≤
    bytes.length - payloadOffset - count * layout.bytesBeforeValuePerElement

/-- A check that has passed. -/
theorem of_check {α : Type} {failed : Prop} [Decidable failed] {reason : String}
    {rest : Except String α} {result : α}
    (h : (if failed then .error reason else rest) = .ok result) :
    ¬ failed ∧ rest = .ok result := by
  by_cases hfailed : failed
  · rw [if_pos hfailed] at h
    exact absurd h (by simp)
  · rw [if_neg hfailed] at h
    exact ⟨hfailed, h⟩

/-- The text of the error does not decide whether dimensions are accepted. -/
theorem dimensionsProduct_ok {message : String} {dimensions : List Nat} {start product : Nat}
    (h : dimensionsProduct message dimensions start = .ok product) (other : String) :
    dimensionsProduct other dimensions start = .ok product := by
  induction dimensions generalizing start with
  | nil => exact h
  | cons d dimensions ih =>
    rw [dimensionsProduct] at h ⊢
    split_ifs at h ⊢
    exact ih h

theorem validatePrimitiveLayout_kind {depth : Nat}
    (h : validatePrimitiveLayout codec layout depth = .ok kind) :
    kind ≠ .unknown ∧ primitiveWidth kind = layout.valueBytes ∧ layout.valueBytes ≠ 0 := by
  unfold validatePrimitiveLayout at h
  by_cases hshape : (decide (layout.valueBytes = 0) || decide (layout.fixedArrayLength = 0) ||
      decide (layout.indexDepth = 0)) = true
  · rw [if_pos hshape] at h
    exact absurd h (by simp)
  · rw [if_neg hshape] at h
    dsimp only at h
    generalize (if layout.primitiveKind = .unknown then codec.classify layout.valueType
      else layout.primitiveKind) = found at h
    split_ifs at h with hwidth hdepth
    obtain rfl : found = kind := Except.ok.inj h
    simp only [Bool.or_eq_true, decide_eq_true_eq, not_or, not_not, ne_eq,
      decide_not, Bool.not_eq_true', decide_eq_false_iff_not] at hshape hwidth
    exact ⟨hwidth.1, hwidth.2, hshape.1.1⟩

theorem fits_of_openEntry {cursor : SerializedVectorPageCursor}
    (h : SerializedVectorPageCursor.openEntry codec bytes payloadOffset count layout =
      .ok cursor) :
    ∃ kind, PayloadFits codec bytes payloadOffset count layout kind := by
  unfold SerializedVectorPageCursor.openEntry at h
  simp only [bind, Except.bind, throw, throwThe, MonadExceptOf.throw, pure, Except.pure] at h
  obtain ⟨hinside, h⟩ := of_check h
  cases hkind : validatePrimitiveLayout codec layout (1 + arrayRank layout) with
  | error e =>
    rw [hkind] at h
    exact absurd h (by simp)
  | ok kind =>
    rw [hkind] at h
    cases hproduct : dimensionsProduct "serialized cursor has invalid array dimensions"
        layout.arrayDimensions 1 with
    | error e =>
      rw [hproduct] at h
      exact absurd h (by simp)
    | ok product =>
      rw [hproduct] at h
      dsimp only at h
      obtain ⟨hdims, h⟩ := of_check h
      obtain ⟨hcount, h⟩ := of_check h
      obtain ⟨hbytes, h⟩ := of_check h
      obtain ⟨hvalues, -⟩ := of_check h
      simp only [Bool.or_eq_true, decide_eq_true_eq, not_or, Bool.and_eq_true, not_and,
        Bool.not_eq_true', Nat.not_lt, gt_iff_lt, decide_not, decide_eq_false_iff_not,
        not_not, ne_eq, decide_eq_false_iff_not] at hinside hdims hcount hbytes hvalues
      exact ⟨kind, hinside.1.1, hkind,
        fun message => ⟨product, dimensionsProduct_ok hproduct message, hdims.1⟩,
        hcount.1.1, hcount.2, hcount.1.2, hbytes.1, hbytes.2, hvalues⟩

theorem openEntry_of_fits (h : PayloadFits codec bytes payloadOffset count layout kind)
    (hlength : layout.arrayDimensions.isEmpty = true → layout.fixedArrayLength ≤ int32Max) :
    ∃ cursor, SerializedVectorPageCursor.openEntry codec bytes payloadOffset count layout =
      .ok cursor := by
  have hpos := (SerializedVectorPageCursor.validatePrimitiveLayout_length codec h.layout_ok).1
  have hwidth := (validatePrimitiveLayout_kind h.layout_ok).2.2
  obtain ⟨product, hproduct, hdims⟩ :=
    h.dimensions_ok "serialized cursor has invalid array dimensions"
  unfold SerializedVectorPageCursor.openEntry
  simp only [bind, Except.bind, throw, throwThe, MonadExceptOf.throw, pure, Except.pure]
  rw [if_neg (by simp [h.inside, Nat.ne_of_gt hpos, hwidth]), h.layout_ok, hproduct]
  dsimp only
  rw [if_neg, if_neg, if_neg, if_neg]
  · exact ⟨_, rfl⟩
  · exact Nat.not_lt.mpr h.values_inside
  · simp only [Bool.or_eq_true, decide_eq_true_eq, not_or, Nat.not_lt, gt_iff_lt]
    exact ⟨h.bytes_small, h.prefix_inside⟩
  · simp only [Bool.or_eq_true, decide_eq_true_eq, not_or, Nat.not_lt, gt_iff_lt,
      Bool.and_eq_true, not_and]
    exact ⟨⟨h.count_le, h.values_small⟩, h.prefix_small⟩
  · simp only [Bool.or_eq_true, decide_eq_true_eq, not_or, Nat.not_lt, gt_iff_lt,
      Bool.and_eq_true, not_and, Bool.not_eq_true', not_not, ne_eq]
    exact ⟨hdims, hlength⟩

theorem fits_of_decodeVectorPayload {result : List RootPrimitiveValue × List Int}
    (h : decodeVectorPayload codec bytes payloadOffset count layout maxValuesPerEntry =
      .ok result) :
    ∃ kind, PayloadFits codec bytes payloadOffset count layout kind := by
  unfold decodeVectorPayload at h
  simp only [bind, Except.bind, throw, throwThe, MonadExceptOf.throw] at h
  obtain ⟨hinside, h⟩ := of_check h
  cases hkind : validatePrimitiveLayout codec layout (1 + arrayRank layout) with
  | error e =>
    rw [hkind] at h
    exact absurd h (by simp)
  | ok kind =>
    rw [hkind] at h
    cases hproduct : dimensionsProduct "serialized fixed-array dimensions are invalid"
        layout.arrayDimensions 1 with
    | error e =>
      rw [hproduct] at h
      exact absurd h (by simp)
    | ok product =>
      rw [hproduct] at h
      dsimp only at h
      obtain ⟨hdims, h⟩ := of_check h
      obtain ⟨hcount, h⟩ := of_check h
      obtain ⟨hsmall, h⟩ := of_check h
      obtain ⟨hbytes, h⟩ := of_check h
      obtain ⟨hvalues, -⟩ := of_check h
      simp only [Bool.or_eq_true, decide_eq_true_eq, not_or, Bool.and_eq_true, not_and,
        Bool.not_eq_true', Nat.not_lt, gt_iff_lt, not_not, ne_eq] at hinside hdims hcount
      simp only [Bool.or_eq_true, decide_eq_true_eq, not_or, Bool.and_eq_true, not_and,
        Nat.not_lt, gt_iff_lt] at hsmall hbytes hvalues
      exact ⟨kind, hinside, hkind,
        fun message => ⟨product, dimensionsProduct_ok hproduct message, hdims⟩,
        hcount.1.1, hsmall.1, hsmall.2, hbytes.1, hvalues.1, hvalues.2⟩

/-- Every position whose bytes are there is decoded. -/
theorem decodeValues_of_inside {projected : List UInt8}
    (hkind : kind ≠ .unknown) (hwidth : primitiveWidth kind = layout.valueBytes)
    (positions : List (Nat × Nat))
    (h : ∀ position ∈ positions,
      (position.1 * layout.fixedArrayLength + position.2) * layout.valueBytes +
        layout.valueBytes ≤ projected.length) :
    ∃ result, decodeValues rootCodec layout kind projected positions = .ok result := by
  induction positions with
  | nil => exact ⟨_, rfl⟩
  | cons position positions ih =>
    obtain ⟨element, arrayIndex⟩ := position
    obtain ⟨rest, hrest⟩ := ih fun position hmem => h position (List.mem_cons_of_mem _ hmem)
    have hhead := h (element, arrayIndex) List.mem_cons_self
    have hthere : primitiveWidth kind ≤ (projected.drop
        ((element * layout.fixedArrayLength + arrayIndex) * layout.valueBytes)).length := by
      rw [List.length_drop, hwidth]
      dsimp only at hhead
      omega
    obtain ⟨value, hvalue⟩ := decodePrimitive_of_le hkind hthere
    refine ⟨(value :: rest.1, valueIndices layout element arrayIndex ++ rest.2), ?_⟩
    rw [decodeValues]
    simp only [rootCodec_decodePrimitive, hvalue, hrest]
    rfl

theorem decodeVectorPayload_of_fits
    (h : PayloadFits rootCodec bytes payloadOffset count layout kind)
    (hlimit : count * layout.fixedArrayLength ≤ maxValuesPerEntry)
    (hindices : count * layout.fixedArrayLength ≤ uint64Max / layout.indexDepth) :
    ∃ result, decodeVectorPayload rootCodec bytes payloadOffset count layout
      maxValuesPerEntry = .ok result := by
  have hpos := (SerializedVectorPageCursor.validatePrimitiveLayout_length _ h.layout_ok).1
  obtain ⟨hkind, hwidth, -⟩ := validatePrimitiveLayout_kind h.layout_ok
  obtain ⟨product, hproduct, hdims⟩ :=
    h.dimensions_ok "serialized fixed-array dimensions are invalid"
  have hle : count ≤ maxValuesPerEntry := (Nat.le_mul_of_pos_right count hpos).trans hlimit
  have hvalues : ∀ position ∈ positions layout count,
      (position.1 * layout.fixedArrayLength + position.2) * layout.valueBytes +
        layout.valueBytes ≤ (bytes.drop
          (payloadOffset + count * layout.bytesBeforeValuePerElement)).length := by
    rw [SerializedVectorPageCursor.positions_eq layout hpos]
    intro position hposition
    obtain ⟨flat, hflat, rfl⟩ := List.mem_map.mp hposition
    have hflat : flat < count * layout.fixedArrayLength := List.mem_range.mp hflat
    have hlast := Nat.mul_le_mul_right layout.valueBytes (Nat.succ_le_of_lt hflat)
    rw [Nat.succ_mul] at hlast
    rw [SerializedVectorPageCursor.position, Nat.div_add_mod', List.length_drop, ← Nat.sub_sub]
    exact hlast.trans h.values_inside
  unfold decodeVectorPayload
  simp only [bind, Except.bind, throw, throwThe, MonadExceptOf.throw]
  rw [if_neg (Nat.not_lt.mpr h.inside), h.layout_ok, hproduct]
  dsimp only
  rw [if_neg, if_neg, if_neg, if_neg, if_neg]
  · exact decodeValues_of_inside hkind hwidth _ hvalues
  · simp only [Bool.or_eq_true, decide_eq_true_eq, not_or, Nat.not_lt, gt_iff_lt]
    exact ⟨h.prefix_inside, h.values_inside⟩
  · simp only [Bool.or_eq_true, decide_eq_true_eq, not_or, Nat.not_lt, gt_iff_lt]
    exact ⟨h.bytes_small, hindices⟩
  · simp only [Bool.or_eq_true, decide_eq_true_eq, not_or, Nat.not_lt, gt_iff_lt,
      Bool.and_eq_true, not_and]
    exact ⟨h.prefix_small, h.values_small⟩
  · simp only [Bool.or_eq_true, decide_eq_true_eq, not_or, Nat.not_lt, gt_iff_lt]
    exact ⟨⟨h.count_le, hle⟩, (Nat.le_div_iff_mul_le hpos).mpr hlimit⟩
  · simp only [Bool.and_eq_true, not_and, Bool.not_eq_true', decide_eq_true_eq, not_not, ne_eq]
    exact hdims

end Checks

/-! ### The pages -/

open SerializedVectorPageCursor

/-- Calling `ReadPage` while `HasMore` says so, with the given sizes: every call gives a page,
    and the last one leaves nothing. -/
inductive ReadsPages (codec : Codec) :
    (Nat → Nat) → SerializedVectorPageCursor → List Page → Prop where
  | done {sizes : Nat → Nat} {cursor : SerializedVectorPageCursor} :
      cursor.hasMore = false → ReadsPages codec sizes cursor []
  | page {sizes : Nat → Nat} {cursor : SerializedVectorPageCursor} {page : Page}
      {pages : List Page} :
      cursor.hasMore = true → cursor.readPage codec (sizes 0) = .ok (some page) →
      ReadsPages codec (fun n => sizes (n + 1)) page.next pages →
      ReadsPages codec sizes cursor (page :: pages)

section Pages

variable {codec : Codec} {cursor : SerializedVectorPageCursor}

/-- A cursor whose contents can be decoded has a page to give. -/
theorem readPage_of_contents {result : List RootPrimitiveValue × List Int}
    (hcontents : cursor.contents codec = .ok result) (hmore : cursor.hasMore = true)
    {rows : Nat} (hrows : 1 ≤ rows) (hdepth : pageRows ≤ maxIndices / cursor.layout.indexDepth) :
    ∃ page, cursor.readPage codec rows = .ok (some page) ∧
      page.next.layout = cursor.layout ∧ page.next.valueCount = cursor.valueCount ∧
      cursor.nextValue < page.next.nextValue := by
  cases hprojected : cursor.projected with
  | none => simp [hasMore, hprojected] at hmore
  | some projected =>
    have hleft : cursor.nextValue < cursor.valueCount := by
      simpa [hasMore, hprojected] using hmore
    generalize hn : min (cursor.valueCount - cursor.nextValue) (min rows pageRows) = n
    have hpageRows : 1 ≤ pageRows := by decide
    have hpos : 1 ≤ n := by omega
    have hcapacity : ¬ n > maxIndices / cursor.layout.indexDepth := by omega
    have hsplit : cursor.valueCount - cursor.nextValue =
        n + (cursor.valueCount - cursor.nextValue - n) := by omega
    rw [contents, hprojected] at hcontents
    dsimp only at hcontents
    rw [hsplit, readValues_add] at hcontents
    cases hread : readValues codec cursor projected n cursor.nextValue with
    | error e =>
      rw [hread] at hcontents
      exact absurd hcontents (by simp)
    | ok first =>
      refine ⟨⟨first.1, first.2, { cursor with nextValue := cursor.nextValue + n }⟩, ?_, rfl,
        rfl, Nat.lt_add_of_pos_right hpos⟩
      unfold readPage
      rw [hprojected]
      dsimp only
      rw [hn, if_neg (by simp [hmore, Nat.ne_of_gt hrows]), if_neg hcapacity, hread]
      rfl

/-- Reading pages of any sizes ends, and the pages together are the contents. The induction is
    on what the cursor has left. -/
theorem readsPages_of_contents (left : Nat) :
    ∀ {cursor : SerializedVectorPageCursor} {sizes : Nat → Nat}
      {values : List RootPrimitiveValue} {indices : List Int},
      cursor.valueCount - cursor.nextValue ≤ left →
      cursor.contents codec = .ok (values, indices) →
      pageRows ≤ maxIndices / cursor.layout.indexDepth → (∀ n, 1 ≤ sizes n) →
      ∃ pages, ReadsPages codec sizes cursor pages ∧
        (pages.flatMap fun page => page.values) = values ∧
        (pages.flatMap fun page => page.indices) = indices := by
  induction left with
  | zero =>
    intro cursor sizes values indices hleft hcontents _ _
    have hmore : cursor.hasMore = false := by
      simp only [hasMore, Bool.and_eq_false_iff, decide_eq_false_iff_not]
      omega
    have hempty := (contents_of_not_hasMore codec hmore).symm.trans hcontents
    obtain ⟨rfl, rfl⟩ := Prod.mk.inj (Except.ok.inj hempty)
    exact ⟨[], .done hmore, rfl, rfl⟩
  | succ left ih =>
    intro cursor sizes values indices hleft hcontents hdepth hsizes
    cases hmore : cursor.hasMore with
    | false =>
      have hempty := (contents_of_not_hasMore codec hmore).symm.trans hcontents
      obtain ⟨rfl, rfl⟩ := Prod.mk.inj (Except.ok.inj hempty)
      exact ⟨[], .done hmore, rfl, rfl⟩
    | true =>
      obtain ⟨page, hpage, hlayout, hcount, hnext⟩ :=
        readPage_of_contents hcontents hmore (hsizes 0) hdepth
      have hrest := contents_of_readPage codec hpage
      rw [hcontents] at hrest
      cases hnextContents : page.next.contents codec with
      | error e =>
        rw [hnextContents] at hrest
        exact absurd hrest (by simp)
      | ok result =>
        rw [hnextContents] at hrest
        obtain ⟨rfl, rfl⟩ := Prod.mk.inj (Except.ok.inj hrest)
        obtain ⟨pages, hpages, hvalues, hindices⟩ := ih (by omega) hnextContents
          (hlayout ▸ hdepth) fun n => hsizes (n + 1)
        refine ⟨page :: pages, .page hmore hpage hpages, ?_, ?_⟩
        · rw [List.flatMap_cons, hvalues]
        · rw [List.flatMap_cons, hindices]

end Pages

/-! ### The two decoders -/

/-- The rank of the arrays a page or a whole entry has indices for. -/
theorem arrayRank_le (layout : SerializedEntryLayout)
    (hrank : layout.arrayDimensions.length < 2 ^ 31) : 1 + arrayRank layout ≤ 2 ^ 31 := by
  unfold arrayRank
  split_ifs <;> omega

/-- **Paged decoding is whole decoding.**  What the decoder of a whole payload accepts, the
    page cursor accepts, and pages of any sizes together are the whole decode; where the cursor
    opens and the values are within the limit, the whole decode accepts. -/
theorem paged_decoding_is_whole_decoding (layout : SerializedEntryLayout)
    (hrank : layout.arrayDimensions.length < 2 ^ 31)
    (hlength : layout.arrayDimensions = [] → layout.fixedArrayLength < 2 ^ 31)
    (bytes : List UInt8) (hbytes : bytes.length ≤ 2 ^ 31 - 1)
    (payloadOffset count maxValuesPerEntry : Nat) :
    (∀ values indices,
      decodeVectorPayload rootCodec bytes payloadOffset count layout maxValuesPerEntry =
        .ok (values, indices) →
      ∃ cursor, openEntry rootCodec bytes payloadOffset count layout = .ok cursor ∧
        ∀ sizes : Nat → Nat, (∀ n, 1 ≤ sizes n) →
          ∃ pages, ReadsPages rootCodec sizes cursor pages ∧
            (pages.flatMap fun page => page.values) = values ∧
            (pages.flatMap fun page => page.indices) = indices) ∧
    ∀ cursor, openEntry rootCodec bytes payloadOffset count layout = .ok cursor →
      count * layout.fixedArrayLength ≤ maxValuesPerEntry →
      ∃ result,
        decodeVectorPayload rootCodec bytes payloadOffset count layout maxValuesPerEntry =
          .ok result := by
  have hdepth := arrayRank_le layout hrank
  refine ⟨fun values indices hdecode => ?_, fun cursor hopen hlimit => ?_⟩
  · obtain ⟨kind, hfits⟩ := fits_of_decodeVectorPayload hdecode
    obtain ⟨cursor, hopen⟩ := openEntry_of_fits hfits fun hempty =>
      Nat.le_pred_of_lt (hlength (List.isEmpty_iff.mp hempty))
    refine ⟨cursor, hopen, fun sizes hsizes => ?_⟩
    have hcontents := contents_of_openEntry rootCodec hopen hdecode
    obtain ⟨_, hkind, rfl⟩ := openEntry_ok rootCodec hopen
    have hshape := (validatePrimitiveLayout_length rootCodec hkind).2
    refine readsPages_of_contents _ (le_refl _) hcontents ?_ hsizes
    dsimp only
    rw [hshape, Nat.le_div_iff_mul_le (by omega)]
    exact (Nat.mul_le_mul_left pageRows hdepth).trans (by decide)
  · obtain ⟨kind, hfits⟩ := fits_of_openEntry hopen
    have hshape := (validatePrimitiveLayout_length rootCodec hfits.layout_ok).2
    have hwidth := (validatePrimitiveLayout_kind hfits.layout_ok).2.2
    refine decodeVectorPayload_of_fits hfits hlimit ?_
    have hvalues : count * layout.fixedArrayLength ≤ 2 ^ 31 - 1 :=
      (Nat.le_mul_of_pos_right _ (Nat.pos_of_ne_zero hwidth)).trans
        (hfits.values_inside.trans (by omega))
    rw [hshape, Nat.le_div_iff_mul_le (by omega)]
    exact (Nat.mul_le_mul hvalues hdepth).trans (by decide)

/-- Two elements of an array of two 16-bit numbers, behind one preceding byte each. -/
def pairLayout : SerializedEntryLayout where
  valueType := "Short_t"
  primitiveKind := .int16
  bytesBeforeValuePerElement := 1
  valueBytes := 2
  fixedArrayLength := 2
  arrayDimensions := [2]
  indexDepth := 2

/-- The four values of such an entry in pages of three rows. -/
theorem paged_decoding_of_pairs :
    ∃ cursor,
      openEntry rootCodec [9, 0, 0, 0, 5, 255, 255, 1, 0, 0, 7] 1 2 pairLayout = .ok cursor ∧
      ∃ pages, ReadsPages rootCodec (fun _ => 3) cursor pages ∧
        (pages.flatMap fun page => page.values) =
          [.signed 5, .signed (-1), .signed 256, .signed 7] ∧
        (pages.flatMap fun page => page.indices) = [0, 0, 0, 1, 1, 0, 1, 1] := by
  have hdecode : decodeVectorPayload rootCodec [9, 0, 0, 0, 5, 255, 255, 1, 0, 0, 7] 1 2 pairLayout
      4 = .ok ([.signed 5, .signed (-1), .signed 256, .signed 7], [0, 0, 0, 1, 1, 0, 1, 1]) := by
    rfl
  obtain ⟨cursor, hopen, hpages⟩ := (paged_decoding_is_whole_decoding pairLayout (by decide)
    (by decide) [9, 0, 0, 0, 5, 255, 255, 1, 0, 0, 7] (by decide) 1 2 4).1 _ _ hdecode
  exact ⟨cursor, hopen, hpages (fun _ => 3) (fun _ => by decide)⟩

end RootLake.Serialized

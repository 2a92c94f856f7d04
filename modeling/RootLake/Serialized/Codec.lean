import RootLake.Reader.Traversal

/-!
# The basket codec

Values of one projected member lie one behind the other in the bytes of an entry. They are
decoded all at once (`decodeVectorPayload`) or in pages (`SerializedVectorPageCursor`), each
value with the index of its element and its coordinates in a fixed array.

How one value is read from its bytes, and how a type name is classified, are parameters.
-/

namespace RootLake.Serialized

/-- Primitive encodings supported by the basket codec. -/
inductive SerializedPrimitiveKind where
  | unknown
  | bool
  | int8
  | uint8
  | int16
  | uint16
  | int32
  | uint32
  | int64
  | uint64
  | float32
  | float64
  deriving DecidableEq, Repr

/-- Fixed layout required to decode one serialized entry. -/
structure SerializedEntryLayout where
  valueType : String
  primitiveKind : SerializedPrimitiveKind := .unknown
  bytesBeforeValuePerElement : Nat := 0
  valueBytes : Nat
  fixedArrayLength : Nat := 1
  arrayDimensions : List Nat := []
  indexDepth : Nat
  deriving DecidableEq, Repr

/-- `ClassifySerializedPrimitive` and `DecodePrimitive`. -/
structure Codec where
  classify : String → SerializedPrimitiveKind
  decodePrimitive : List UInt8 → SerializedPrimitiveKind → Option RootPrimitiveValue

def primitiveWidth : SerializedPrimitiveKind → Nat
  | .unknown => 0
  | .bool | .int8 | .uint8 => 1
  | .int16 | .uint16 => 2
  | .int32 | .uint32 | .float32 => 4
  | .int64 | .uint64 | .float64 => 8

def uint64Max : Nat := 2 ^ 64 - 1

section

variable (codec : Codec)

def validatePrimitiveLayout (layout : SerializedEntryLayout) (expectedIndexDepth : Nat) :
    Except String SerializedPrimitiveKind :=
  if layout.valueBytes = 0 || layout.fixedArrayLength = 0 || layout.indexDepth = 0 then
    .error "serialized entry layout is incomplete"
  else
    let kind :=
      if layout.primitiveKind = .unknown then codec.classify layout.valueType
      else layout.primitiveKind
    if kind = .unknown || primitiveWidth kind ≠ layout.valueBytes then
      .error "serialized primitive type and width are inconsistent"
    else if layout.indexDepth ≠ expectedIndexDepth then
      .error "serialized entry index shape is inconsistent"
    else .ok kind

/-- The product of the dimensions, which have to be valid indices. -/
def dimensionsProduct (message : String) : List Nat → Nat → Except String Nat
  | [], product => .ok product
  | d :: dimensions, product =>
      if d = 0 || d > int32Max || product > uint64Max / d then .error message
      else dimensionsProduct message dimensions (product * d)

/-- The number of coordinates inside a fixed array. -/
def arrayRank (layout : SerializedEntryLayout) : Nat :=
  if layout.fixedArrayLength > 1 then
    (if layout.arrayDimensions.isEmpty then 1 else layout.arrayDimensions.length)
  else 0

/-- `static_cast<int32_t>`. -/
def toInt32 (n : Nat) : Int := (Int32.ofNat n).toInt

/-- The loop over the dimensions, the last one first. -/
def coordinates : List Nat → Nat → List Int × Nat
  | [], flat => ([], flat)
  | d :: dimensions, flat =>
      let (rest, flat) := coordinates dimensions flat
      (toInt32 (flat % d) :: rest, flat / d)

/-- What `PushArrayCoordinates` appends. -/
def arrayCoordinates (flat : Nat) (dimensions : List Nat) : List Int :=
  if dimensions.isEmpty then [toInt32 flat] else (coordinates dimensions flat).1

/-- The indices of one value. -/
def valueIndices (layout : SerializedEntryLayout) (element arrayIndex : Nat) : List Int :=
  toInt32 element ::
    if layout.fixedArrayLength > 1 then arrayCoordinates arrayIndex layout.arrayDimensions else []

/-! ### Whole entries -/

/-- The two loops over elements and array positions; nothing is kept of a failed entry. -/
def decodeValues (layout : SerializedEntryLayout) (kind : SerializedPrimitiveKind)
    (projected : List UInt8) :
    List (Nat × Nat) → Except String (List RootPrimitiveValue × List Int)
  | [] => .ok ([], [])
  | (element, arrayIndex) :: positions =>
      let flat := element * layout.fixedArrayLength + arrayIndex
      match codec.decodePrimitive (projected.drop (flat * layout.valueBytes)) kind with
      | none => .error ("unsupported primitive decoder for " ++ layout.valueType)
      | some value => do
          let (values, indices) ← decodeValues layout kind projected positions
          .ok (value :: values, valueIndices layout element arrayIndex ++ indices)

def positions (layout : SerializedEntryLayout) (count : Nat) : List (Nat × Nat) :=
  (List.range count).flatMap fun element =>
    (List.range layout.fixedArrayLength).map fun arrayIndex => (element, arrayIndex)

/-- `DecodeVectorPayload`; `bytes` are those of the entry. -/
def decodeVectorPayload (bytes : List UInt8) (payloadOffset count : Nat)
    (layout : SerializedEntryLayout) (maxValuesPerEntry : Nat) :
    Except String (List RootPrimitiveValue × List Int) := do
  if payloadOffset > bytes.length then
    throw "serialized vector payload starts outside its entry"
  let kind ← validatePrimitiveLayout codec layout (1 + arrayRank layout)
  let product ← dimensionsProduct "serialized fixed-array dimensions are invalid"
    layout.arrayDimensions 1
  if !layout.arrayDimensions.isEmpty && product ≠ layout.fixedArrayLength then
    throw "serialized fixed-array dimensions do not match its length"
  if count > int32Max || count > maxValuesPerEntry ||
      count > maxValuesPerEntry / layout.fixedArrayLength then
    throw "serialized vector element count exceeds configured safety limit"
  if (layout.bytesBeforeValuePerElement ≠ 0 &&
      count > uint64Max / layout.bytesBeforeValuePerElement) ||
      count > uint64Max / layout.fixedArrayLength then
    throw "serialized vector size arithmetic overflow"
  let prefixBytes := count * layout.bytesBeforeValuePerElement
  let valueCount := count * layout.fixedArrayLength
  if valueCount > uint64Max / layout.valueBytes || valueCount > uint64Max / layout.indexDepth then
    throw "serialized projected member size arithmetic overflow"
  if prefixBytes > bytes.length - payloadOffset ||
      valueCount * layout.valueBytes > bytes.length - payloadOffset - prefixBytes then
    throw "projected member range exceeds serialized entry"
  decodeValues codec layout kind (bytes.drop (payloadOffset + prefixBytes)) (positions layout count)

/-! ### Pages -/

/-- Bounded byte-backed primitive pages. -/
structure SerializedVectorPageCursor where
  projected : Option (List UInt8) := none
  layout : SerializedEntryLayout := { valueType := "", valueBytes := 0, indexDepth := 0 }
  kind : SerializedPrimitiveKind := .unknown
  valueCount : Nat := 0
  nextValue : Nat := 0
  deriving DecidableEq, Repr

namespace SerializedVectorPageCursor

def openEntry (bytes : List UInt8) (payloadOffset count : Nat) (layout : SerializedEntryLayout) :
    Except String SerializedVectorPageCursor := do
  if payloadOffset > bytes.length || layout.fixedArrayLength = 0 || layout.valueBytes = 0 then
    throw "serialized cursor has an invalid entry or primitive width"
  let kind ← validatePrimitiveLayout codec layout (1 + arrayRank layout)
  let product ← dimensionsProduct "serialized cursor has invalid array dimensions"
    layout.arrayDimensions 1
  if (!layout.arrayDimensions.isEmpty && product ≠ layout.fixedArrayLength) ||
      (layout.arrayDimensions.isEmpty && layout.fixedArrayLength > int32Max) then
    throw "serialized cursor array dimensions exceed supported indices"
  if count > int32Max || count > uint64Max / layout.fixedArrayLength ||
      (layout.bytesBeforeValuePerElement ≠ 0 &&
        count > uint64Max / layout.bytesBeforeValuePerElement) then
    throw "serialized cursor element count or prefix overflows"
  let total := count * layout.fixedArrayLength
  let prefixBytes := count * layout.bytesBeforeValuePerElement
  if total > uint64Max / layout.valueBytes || prefixBytes > bytes.length - payloadOffset then
    throw "serialized cursor projected byte count overflows"
  if total * layout.valueBytes > bytes.length - payloadOffset - prefixBytes then
    throw "serialized cursor payload exceeds its entry frame"
  return {
    projected := some (bytes.drop (payloadOffset + prefixBytes))
    layout := layout
    kind := kind
    valueCount := total }

def hasMore (cursor : SerializedVectorPageCursor) : Bool :=
  cursor.projected.isSome && cursor.nextValue < cursor.valueCount

/-- `STANDARD_VECTOR_SIZE`: the most rows of one page. -/
def pageRows : Nat := 2048

/-- The loop of `ReadPage`: `rows` values from a flat position on. -/
def readValues (cursor : SerializedVectorPageCursor) (projected : List UInt8) :
    Nat → Nat → Except String (List RootPrimitiveValue × List Int)
  | 0, _ => .ok ([], [])
  | rows + 1, flat =>
      match codec.decodePrimitive (projected.drop (flat * cursor.layout.valueBytes))
        cursor.kind with
      | none => .error "serialized cursor primitive decode failed"
      | some value => do
          let (values, indices) ← readValues cursor projected rows (flat + 1)
          .ok (value :: values,
            valueIndices cursor.layout (flat / cursor.layout.fixedArrayLength)
              (flat % cursor.layout.fixedArrayLength) ++ indices)

/-- A page with its values and indices, and the cursor after it. -/
structure Page where
  values : List RootPrimitiveValue
  indices : List Int
  next : SerializedVectorPageCursor

/-- `flat_indices.max_size()`. -/
def maxIndices : Nat := 2 ^ 61 - 1

/-- `ReadPage`: none if there is nothing left, and the reason of a failure. -/
def readPage (cursor : SerializedVectorPageCursor) (maximumRows : Nat) :
    Except String (Option Page) :=
  match cursor.projected with
  | none => .ok none
  | some projected =>
      let rows := min (cursor.valueCount - cursor.nextValue) (min maximumRows pageRows)
      if !cursor.hasMore || maximumRows = 0 then .ok none
      else if rows > maxIndices / cursor.layout.indexDepth then
        .error "serialized cursor index page exceeds vector capacity"
      else do
        let (values, indices) ← readValues codec cursor projected rows cursor.nextValue
        .ok (some {
          values := values
          indices := indices
          next := { cursor with nextValue := cursor.nextValue + rows } })

/-- What a cursor has left. -/
def contents (cursor : SerializedVectorPageCursor) :
    Except String (List RootPrimitiveValue × List Int) :=
  match cursor.projected with
  | none => .ok ([], [])
  | some projected =>
      readValues codec cursor projected (cursor.valueCount - cursor.nextValue) cursor.nextValue

/-! ### Pages are the contents, cut -/

theorem readValues_add (cursor : SerializedVectorPageCursor) (projected : List UInt8)
    (m n flat : Nat) :
    readValues codec cursor projected (m + n) flat =
      match readValues codec cursor projected m flat,
        readValues codec cursor projected n (flat + m) with
      | .error e, _ => .error e
      | .ok _, .error e => .error e
      | .ok (values, indices), .ok (more, moreIndices) =>
          .ok (values ++ more, indices ++ moreIndices) := by
  induction m generalizing flat with
  | zero =>
    rw [Nat.zero_add, Nat.add_zero]
    cases readValues codec cursor projected n flat <;> rfl
  | succ m ih =>
    rw [show m + 1 + n = m + n + 1 by omega, readValues, readValues]
    cases codec.decodePrimitive (projected.drop (flat * cursor.layout.valueBytes)) cursor.kind with
    | none => rfl
    | some value =>
      simp only [ih, show flat + 1 + m = flat + (m + 1) by omega]
      cases readValues codec cursor projected m (flat + 1) with
      | error e => rfl
      | ok first =>
        simp only [bind, Except.bind]
        cases readValues codec cursor projected n (flat + (m + 1)) with
        | error e => rfl
        | ok more => simp

/-- Where a cursor stands does not matter for the value at a position. -/
theorem readValues_congr {cursor cursor' : SerializedVectorPageCursor}
    (hlayout : cursor'.layout = cursor.layout) (hkind : cursor'.kind = cursor.kind)
    (projected : List UInt8) (rows flat : Nat) :
    readValues codec cursor' projected rows flat = readValues codec cursor projected rows flat := by
  induction rows generalizing flat with
  | zero => rfl
  | succ rows ih => simp only [readValues, ih, hlayout, hkind]

theorem contents_of_not_hasMore {cursor : SerializedVectorPageCursor}
    (h : cursor.hasMore = false) : cursor.contents codec = .ok ([], []) := by
  unfold contents
  cases hp : cursor.projected with
  | none => rfl
  | some projected =>
    have hle : cursor.valueCount - cursor.nextValue = 0 := by
      simp only [hasMore, hp, Option.isSome_some, Bool.true_and, decide_eq_false_iff_not] at h
      omega
    simp only [hle, readValues]

/-- A page is a beginning of what is left. -/
theorem contents_of_readPage {cursor : SerializedVectorPageCursor} {rows : Nat} {page : Page}
    (h : cursor.readPage codec rows = .ok (some page)) :
    cursor.contents codec =
      match page.next.contents codec with
      | .error e => .error e
      | .ok (values, indices) => .ok (page.values ++ values, page.indices ++ indices) := by
  unfold readPage at h
  cases hp : cursor.projected with
  | none =>
    rw [hp] at h
    exact absurd h (by simp)
  | some projected =>
    rw [hp] at h
    dsimp only at h
    have hgo : (!cursor.hasMore || decide (rows = 0)) = false := by
      by_contra hne
      rw [if_pos ((Bool.not_eq_false _).mp hne)] at h
      exact absurd h (by simp)
    rw [if_neg (by simp [hgo])] at h
    have hcapacity : ¬ min (cursor.valueCount - cursor.nextValue) (min rows pageRows) >
        maxIndices / cursor.layout.indexDepth := by
      intro hfull
      rw [if_pos hfull] at h
      exact absurd h (by simp)
    rw [if_neg hcapacity] at h
    generalize hrows : min (cursor.valueCount - cursor.nextValue) (min rows pageRows) = n at h
    cases hread : readValues codec cursor projected n cursor.nextValue with
    | error e =>
      rw [hread] at h
      exact absurd h (by simp [bind, Except.bind])
    | ok result =>
      rw [hread] at h
      simp only [bind, Except.bind, Except.ok.injEq, Option.some.injEq] at h
      subst h
      have hsplit : cursor.valueCount - cursor.nextValue =
          n + (cursor.valueCount - (cursor.nextValue + n)) := by omega
      have hleft := readValues_add codec cursor projected n
        (cursor.valueCount - (cursor.nextValue + n)) cursor.nextValue
      rw [← hsplit, hread] at hleft
      have hrest : contents codec (SerializedVectorPageCursor.mk (some projected) cursor.layout
          cursor.kind cursor.valueCount (cursor.nextValue + n)) =
          readValues codec cursor projected (cursor.valueCount - (cursor.nextValue + n))
            (cursor.nextValue + n) := by
        unfold contents
        exact readValues_congr codec (by rfl) (by rfl) _ _ _
      simp only [hrest]
      simp only [contents, hp, hleft]
      cases readValues codec cursor projected (cursor.valueCount - (cursor.nextValue + n))
        (cursor.nextValue + n) <;> rfl

theorem readPage_none {cursor : SerializedVectorPageCursor} {rows : Nat} (hrows : rows ≠ 0)
    (h : cursor.readPage codec rows = .ok none) : cursor.hasMore = false := by
  unfold readPage at h
  cases hp : cursor.projected with
  | none => simp only [hasMore, hp, Option.isSome_none, Bool.false_and]
  | some projected =>
    rw [hp] at h
    dsimp only at h
    split_ifs at h with hstop hfull
    · simpa [hrows] using hstop
    · cases hread : readValues codec cursor projected
        (min (cursor.valueCount - cursor.nextValue) (min rows pageRows)) cursor.nextValue with
      | error e =>
        rw [hread] at h
        exact absurd h (by simp [bind, Except.bind])
      | ok result =>
        rw [hread] at h
        exact absurd h (by simp [bind, Except.bind])

/-! ### Pages and whole entries agree -/

/-- The flat position of a value gives its element and its array position. -/
def position (length flat : Nat) : Nat × Nat := (flat / length, flat % length)

theorem positions_eq (layout : SerializedEntryLayout) (hlength : 0 < layout.fixedArrayLength)
    (count : Nat) :
    positions layout count =
      (List.range (count * layout.fixedArrayLength)).map (position layout.fixedArrayLength) := by
  induction count with
  | zero => simp [positions]
  | succ count ih =>
    have hlast : (List.range layout.fixedArrayLength).map (fun arrayIndex => (count, arrayIndex)) =
        ((List.range layout.fixedArrayLength).map (count * layout.fixedArrayLength + ·)).map
          (position layout.fixedArrayLength) := by
      rw [List.map_map]
      refine List.map_congr_left fun i hi => ?_
      have hi : i < layout.fixedArrayLength := List.mem_range.mp hi
      simp only [Function.comp_apply, position, Nat.mul_comm count, Nat.mul_add_div hlength,
        Nat.mul_add_mod, Nat.div_eq_of_lt hi, Nat.mod_eq_of_lt hi, Nat.add_zero]
    have hstep : positions layout (count + 1) = positions layout count ++
        (List.range layout.fixedArrayLength).map fun arrayIndex => (count, arrayIndex) := by
      simp [positions, List.range_succ]
    rw [hstep, ih, hlast, ← List.map_append, ← List.range_add, Nat.succ_mul]

theorem readValues_of_decodeValues {cursor : SerializedVectorPageCursor}
    {layout : SerializedEntryLayout} (hlayout : cursor.layout = layout)
    {kind : SerializedPrimitiveKind} (hkind : cursor.kind = kind) (projected : List UInt8)
    (rows flat : Nat) {result : List RootPrimitiveValue × List Int}
    (h : decodeValues codec layout kind projected
      ((List.range' flat rows).map (position layout.fixedArrayLength)) = .ok result) :
    readValues codec cursor projected rows flat = .ok result := by
  subst hlayout hkind
  induction rows generalizing flat result with
  | zero => exact h
  | succ rows ih =>
    rw [List.range'_succ, List.map_cons, decodeValues, position, Nat.div_add_mod'] at h
    rw [readValues]
    cases hvalue : codec.decodePrimitive (projected.drop (flat * cursor.layout.valueBytes))
      cursor.kind with
    | none =>
      rw [hvalue] at h
      exact absurd h (by simp)
    | some value =>
      rw [hvalue] at h
      cases hrest : decodeValues codec cursor.layout cursor.kind projected
          ((List.range' (flat + 1) rows).map (position cursor.layout.fixedArrayLength)) with
      | error e =>
        rw [hrest] at h
        exact absurd h (by simp [bind, Except.bind])
      | ok rest =>
        rw [hrest] at h
        simp only [ih (flat + 1) hrest]
        exact h

theorem validatePrimitiveLayout_length {layout : SerializedEntryLayout} {depth : Nat}
    {kind : SerializedPrimitiveKind}
    (h : validatePrimitiveLayout codec layout depth = .ok kind) :
    0 < layout.fixedArrayLength ∧ layout.indexDepth = depth := by
  unfold validatePrimitiveLayout at h
  by_cases hshape : (decide (layout.valueBytes = 0) || decide (layout.fixedArrayLength = 0) ||
      decide (layout.indexDepth = 0)) = true
  · rw [if_pos hshape] at h
    exact absurd h (by simp)
  · rw [if_neg hshape] at h
    dsimp only at h
    generalize (if layout.primitiveKind = .unknown then codec.classify layout.valueType
      else layout.primitiveKind) = found at h
    split_ifs at h with hwidth hdepth
    simp only [Bool.or_eq_true, decide_eq_true_eq, not_or] at hshape
    exact ⟨Nat.pos_of_ne_zero hshape.1.2, not_not.mp hdepth⟩

theorem openEntry_ok {bytes : List UInt8} {payloadOffset count : Nat}
    {layout : SerializedEntryLayout} {cursor : SerializedVectorPageCursor}
    (h : openEntry codec bytes payloadOffset count layout = .ok cursor) :
    ∃ kind, validatePrimitiveLayout codec layout (1 + arrayRank layout) = .ok kind ∧
      cursor = {
        projected :=
          some (bytes.drop (payloadOffset + count * layout.bytesBeforeValuePerElement))
        layout := layout
        kind := kind
        valueCount := count * layout.fixedArrayLength } := by
  unfold openEntry at h
  simp only [bind, Except.bind, throw, throwThe, MonadExceptOf.throw, pure, Except.pure] at h
  cases hkind : validatePrimitiveLayout codec layout (1 + arrayRank layout) with
  | error e =>
    rw [hkind] at h
    split_ifs at h
  | ok kind =>
    rw [hkind] at h
    refine ⟨kind, rfl, ?_⟩
    cases hproduct : dimensionsProduct "serialized cursor has invalid array dimensions"
        layout.arrayDimensions 1 with
    | error e =>
      rw [hproduct] at h
      split_ifs at h
    | ok product =>
      rw [hproduct] at h
      dsimp only at h
      split_ifs at h
      exact (Except.ok.inj h).symm

theorem decodeVectorPayload_ok {bytes : List UInt8}
    {payloadOffset count maxValuesPerEntry : Nat} {layout : SerializedEntryLayout}
    {result : List RootPrimitiveValue × List Int}
    (h : decodeVectorPayload codec bytes payloadOffset count layout maxValuesPerEntry =
      .ok result) :
    ∃ kind, validatePrimitiveLayout codec layout (1 + arrayRank layout) = .ok kind ∧
      decodeValues codec layout kind
        (bytes.drop (payloadOffset + count * layout.bytesBeforeValuePerElement))
        (positions layout count) = .ok result := by
  unfold decodeVectorPayload at h
  simp only [bind, Except.bind, throw, throwThe, MonadExceptOf.throw] at h
  cases hkind : validatePrimitiveLayout codec layout (1 + arrayRank layout) with
  | error e =>
    rw [hkind] at h
    split_ifs at h
  | ok kind =>
    rw [hkind] at h
    refine ⟨kind, rfl, ?_⟩
    cases hproduct : dimensionsProduct "serialized fixed-array dimensions are invalid"
        layout.arrayDimensions 1 with
    | error e =>
      rw [hproduct] at h
      split_ifs at h
    | ok product =>
      rw [hproduct] at h
      dsimp only at h
      split_ifs at h
      exact h

/-- **The pages of an entry are its values.** Where both decoders accept an entry, the
    pages together have what decoding the whole entry gives. -/
theorem contents_of_openEntry {bytes : List UInt8} {payloadOffset count maxValuesPerEntry : Nat}
    {layout : SerializedEntryLayout} {cursor : SerializedVectorPageCursor}
    {result : List RootPrimitiveValue × List Int}
    (hopen : openEntry codec bytes payloadOffset count layout = .ok cursor)
    (hdecode : decodeVectorPayload codec bytes payloadOffset count layout maxValuesPerEntry =
      .ok result) : cursor.contents codec = .ok result := by
  obtain ⟨kind, hkind, rfl⟩ := openEntry_ok codec hopen
  obtain ⟨kind', hkind', hvalues⟩ := decodeVectorPayload_ok codec hdecode
  obtain rfl : kind = kind' := Except.ok.inj (hkind.symm.trans hkind')
  have hlength := (validatePrimitiveLayout_length codec hkind).1
  rw [positions_eq layout hlength, List.range_eq_range'] at hvalues
  exact readValues_of_decodeValues codec rfl rfl _ _ _ hvalues

end SerializedVectorPageCursor

end

end RootLake.Serialized

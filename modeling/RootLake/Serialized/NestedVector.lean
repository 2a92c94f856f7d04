import RootLake.Serialized.NestedColumn
import RootLake.Serialized.NestedFixed

/-!
# Nested vectors parsed in full

The naive decoder parses every column of every nested vector at its on-file width and then
selects the projected member's. On the vectors of a frame the offset decoder gives what it
gives, when the file stores the dictionary's primitive and the array has several numbers
(`decodes_of_same`); for the other plans there is a frame on which it does not
(`nested_fixed_meets_iff`).
-/

namespace RootLake.Serialized

open RootLake.Bytes

/-! ### The full parse -/

/-- The nested vector of one outer element: how many inner elements it has, and for each
    column the numbers of each inner element. -/
structure NestedVector where
  count : Nat
  before : List (List (List Nat))
  target : List (List Nat)
  after : List (List (List Nat))
  deriving DecidableEq, Repr

def readRows (column : StreamedColumn) (count : Nat) : Reader (List (List Nat)) :=
  readMany (readMany (readBigEndian column.width) column.length) count

def readColumns (count : Nat) : List StreamedColumn → Reader (List (List (List Nat)))
  | [], bytes => some ([], bytes)
  | column :: columns, bytes =>
      match readRows column count bytes with
      | none => none
      | some (rows, bytes) =>
          match readColumns count columns bytes with
          | none => none
          | some (more, bytes) => some (rows :: more, bytes)

def readVector (columns : ElementColumns) : Reader NestedVector := fun bytes =>
  match readBigEndian 4 bytes with
  | none => none
  | some (count, bytes) =>
      match readColumns count columns.before bytes with
      | none => none
      | some (before, bytes) =>
          match readRows columns.target count bytes with
          | none => none
          | some (target, bytes) =>
              match readColumns count columns.after bytes with
              | none => none
              | some (after, bytes) => some (⟨count, before, target, after⟩, bytes)

/-- The outer and the inner index of a number and its coordinates in the array. -/
def arrayIndices (dimensions : List Nat) (outer inner element : Nat) : List Int :=
  (outer : Int) :: (inner : Int) :: (mixedRadix dimensions element).map fun digit : Nat => (digit : Int)

/-- The indices of the inner elements from `inner` on. -/
def vectorIndices (dimensions : List Nat) (outer : Nat) : Nat → List (List Nat) → List Int
  | _, [] => []
  | inner, row :: rows =>
      (List.range row.length).flatMap (arrayIndices dimensions outer inner) ++
        vectorIndices dimensions outer (inner + 1) rows

/-- The indices of the outer elements from `outer` on. -/
def entryIndices (dimensions : List Nat) : Nat → List NestedVector → List Int
  | _, [] => []
  | outer, vector :: vectors =>
      vectorIndices dimensions outer 0 vector.target ++ entryIndices dimensions (outer + 1) vectors

def entryValues (kind : SerializedPrimitiveKind) (vectors : List NestedVector) :
    List RootPrimitiveValue :=
  vectors.flatMap fun vector => vector.target.flatten.map (memberValue kind)

/-- Parse all columns of a frame's body and select the member's at its on-file primitive. -/
def decodeAllColumns (columns : ElementColumns) (kind : SerializedPrimitiveKind)
    (dimensions : List Nat) (outerCount : Nat) (body : List UInt8) :
    Option (List RootPrimitiveValue × List Int) :=
  match readMany (readVector columns) outerCount body with
  | some (vectors, []) => some (entryValues kind vectors, entryIndices dimensions 0 vectors)
  | _ => none

/-! ### Encoded vectors -/

def encodeRows (width : Nat) (rows : List (List Nat)) : List UInt8 :=
  rows.flatMap fun row => row.flatMap (toBigEndian width)

def encodeColumns : List StreamedColumn → List (List (List Nat)) → List UInt8
  | column :: columns, rows :: more => encodeRows column.width rows ++ encodeColumns columns more
  | _, _ => []

def encodeVector (columns : ElementColumns) (vector : NestedVector) : List UInt8 :=
  toBigEndian 4 vector.count ++ (encodeColumns columns.before vector.before ++
    (encodeRows columns.target.width vector.target ++ encodeColumns columns.after vector.after))

/-- The rows of a column: one for each inner element, of the column's numbers. -/
structure RowsFit (column : StreamedColumn) (count : Nat) (rows : List (List Nat)) : Prop where
  count_eq : rows.length = count
  length_eq : ∀ row ∈ rows, row.length = column.length
  small : ∀ row ∈ rows, ∀ n ∈ row, n < 256 ^ column.width

structure VectorFits (columns : ElementColumns) (vector : NestedVector) : Prop where
  count_small : vector.count < 2 ^ 31
  before : List.Forall₂ (fun column rows => RowsFit column vector.count rows) columns.before
    vector.before
  target : RowsFit columns.target vector.count vector.target
  after : List.Forall₂ (fun column rows => RowsFit column vector.count rows) columns.after
    vector.after

section Encoded

variable {column : StreamedColumn} {columns : ElementColumns} {count : Nat}

theorem RowsFit.read {rows : List (List Nat)} (h : RowsFit column count rows)
    (rest : List UInt8) :
    readRows column count (encodeRows column.width rows ++ rest) = some (rows, rest) := by
  rw [readRows, ← h.count_eq, encodeRows]
  refine readMany_encoded rows (fun row hrow rest => ?_) rest
  rw [← h.length_eq row hrow]
  exact readMany_encoded row (fun n hn => readBigEndian_encoded (h.small row hrow n hn)) rest

theorem RowsFit.length_encode {rows : List (List Nat)} (h : RowsFit column count rows) :
    (encodeRows column.width rows).length = count * column.bytes := by
  obtain ⟨hcount, hlength, -⟩ := h
  induction rows generalizing count with
  | nil => rw [← hcount, encodeRows, List.flatMap_nil, List.length_nil, List.length_nil,
      Nat.zero_mul]
  | cons row rows ih =>
    have hrest := ih rfl fun other hother => hlength other (List.mem_cons_of_mem _ hother)
    rw [encodeRows] at hrest
    rw [encodeRows, List.flatMap_cons, List.length_append, hrest, length_flatMap_toBigEndian,
      hlength row List.mem_cons_self, ← hcount, List.length_cons, Nat.succ_mul,
      StreamedColumn.bytes, Nat.mul_comm column.length, Nat.add_comm]

theorem readColumns_encoded {columns : List StreamedColumn} {cells : List (List (List Nat))}
    (h : List.Forall₂ (fun column rows => RowsFit column count rows) columns cells)
    (rest : List UInt8) :
    readColumns count columns (encodeColumns columns cells ++ rest) = some (cells, rest) := by
  induction h with
  | nil => rfl
  | cons hrows _ ih =>
    rw [encodeColumns, List.append_assoc, readColumns, hrows.read]
    dsimp only
    rw [ih]

theorem length_encodeColumns {columns : List StreamedColumn} {cells : List (List (List Nat))}
    (h : List.Forall₂ (fun column rows => RowsFit column count rows) columns cells) :
    (encodeColumns columns cells).length = count * columnBytes columns := by
  induction h with
  | nil => rfl
  | cons hrows _ ih =>
    rw [encodeColumns, List.length_append, hrows.length_encode, ih, columnBytes, columnBytes,
      List.map_cons, List.sum_cons, Nat.mul_add]

theorem VectorFits.read {vector : NestedVector} (h : VectorFits columns vector)
    (rest : List UInt8) :
    readVector columns (encodeVector columns vector ++ rest) = some (vector, rest) := by
  rw [readVector, encodeVector, List.append_assoc,
    readBigEndian_encoded (h.count_small.trans (by decide))]
  dsimp only
  rw [List.append_assoc, readColumns_encoded h.before]
  dsimp only
  rw [List.append_assoc, h.target.read]
  dsimp only
  rw [readColumns_encoded h.after]

/-- The full parse of encoded vectors gives them back. -/
theorem decodeAllColumns_encoded {vectors : List NestedVector}
    (h : ∀ vector ∈ vectors, VectorFits columns vector) (kind : SerializedPrimitiveKind)
    (dimensions : List Nat) :
    decodeAllColumns columns kind dimensions vectors.length
        (vectors.flatMap (encodeVector columns)) =
      some (entryValues kind vectors, entryIndices dimensions 0 vectors) := by
  have hread := readMany_encoded vectors (fun vector hmem => (h vector hmem).read) []
  rw [List.append_nil] at hread
  rw [decodeAllColumns, hread]

theorem VectorFits.length_encode {vector : NestedVector} (h : VectorFits columns vector) :
    (encodeVector columns vector).length = 4 + vector.count * (columnBytes columns.before +
      columns.target.bytes + columnBytes columns.after) := by
  rw [encodeVector, List.length_append, List.length_append, List.length_append,
    length_toBigEndian, length_encodeColumns h.before, h.target.length_encode,
    length_encodeColumns h.after]
  ring

end Encoded

/-! ### The offset decoder on encoded vectors -/

/-- The shape of a plan's array: positive extents whose product is the length, and more than
    one number, so that every number has its coordinates. -/
structure ManyElements (plan : NestedFixedPlan) : Prop where
  many : 1 < plan.fixedArrayLength
  prod_eq : plan.arrayDimensions.prod = plan.fixedArrayLength
  extents : ∀ d ∈ plan.arrayDimensions, 0 < d ∧ d ≤ int32Max

section Offsets

variable {bytes : List UInt8} {plan : NestedFixedPlan} {layout : SerializedEntryLayout}
  {kind : SerializedPrimitiveKind} {maxValuesPerEntry : Nat}

theorem ManyElements.dimensions_ne (h : ManyElements plan) : plan.arrayDimensions ≠ [] := by
  intro hempty
  have hmany := h.many
  rw [← h.prod_eq, hempty, List.prod_nil] at hmany
  exact absurd hmany (lt_irrefl 1)

theorem ManyElements.pushedDepth_eq (h : ManyElements plan) :
    pushedDepth plan = 2 + plan.arrayDimensions.length := by
  rw [pushedDepth, if_neg (by have := h.many; omega), if_neg (by simpa using h.dimensions_ne)]

theorem ManyElements.nestedIndices_eq (h : ManyElements plan) {outer inner : Nat}
    (houter : outer ≤ int32Max) (hinner : inner ≤ int32Max) (element : Nat) :
    nestedIndices plan outer inner element =
      .ok (arrayIndices plan.arrayDimensions outer inner element) := by
  have hzero : 0 ∉ plan.arrayDimensions := fun hmem => absurd (h.extents 0 hmem).1 (lt_irrefl 0)
  rw [nestedIndices, if_neg (by have := h.many; omega), if_neg (by simpa using h.dimensions_ne),
    if_neg hzero, coordinates_eq, arrayIndices, toInt32_of_le houter, toInt32_of_le hinner]
  congr 3
  refine List.map_congr_left fun digit hdigit => ?_
  obtain ⟨d, hd, hlt⟩ := mixedRadix_lt (fun d hd => (h.extents d hd).1) element digit hdigit
  exact toInt32_of_le (hlt.le.trans (h.extents d hd).2)

theorem readNestedValue_encoded (hknown : kind ≠ .unknown) {position bits : Nat}
    {rest : List UInt8} (hbits : bits < 256 ^ primitiveWidth kind)
    (hbytes : bytes.drop position = toBigEndian (primitiveWidth kind) bits ++ rest) :
    readNestedValue bytes kind position = .ok (memberValue kind bits) := by
  have hlength := congrArg List.length hbytes
  rw [List.length_drop, List.length_append, length_toBigEndian] at hlength
  have hinside : ¬ position + primitiveWidth kind > bytes.length := by
    rcases Nat.lt_or_ge bytes.length position with hlt | hge
    · have hpos : 0 < primitiveWidth kind := by
        cases kind
        case unknown => exact absurd rfl hknown
        all_goals decide
      omega
    · omega
  rw [readNestedValue, if_neg hinside, hbytes, decodePrimitive_encoded hbits,
    primitiveOfBits_eq hknown]

/-- The loop over an array whose numbers stand at its offset. -/
theorem appendElements_encoded (hknown : kind ≠ .unknown)
    (hwidth : primitiveWidth kind = layout.valueBytes) (hmany : ManyElements plan)
    {payloadOffset outer inner : Nat} (houter : outer ≤ int32Max) (hinner : inner ≤ int32Max)
    {rest : List UInt8} (numbers : List Nat) :
    ∀ first, bytes.drop (payloadOffset + first * layout.valueBytes) =
        numbers.flatMap (toBigEndian (primitiveWidth kind)) ++ rest →
      (∀ n ∈ numbers, n < 256 ^ primitiveWidth kind) →
      (appendElements bytes plan layout kind payloadOffset outer inner
          (List.range' first numbers.length)).result =
        .ok (numbers.map (memberValue kind), (List.range' first numbers.length).flatMap
          (arrayIndices plan.arrayDimensions outer inner)) := by
  induction numbers with
  | nil => exact fun _ _ _ => rfl
  | cons bits numbers ih =>
    intro first hbytes hsmall
    rw [List.flatMap_cons, List.append_assoc] at hbytes
    have hnext : bytes.drop (payloadOffset + (first + 1) * layout.valueBytes) =
        numbers.flatMap (toBigEndian (primitiveWidth kind)) ++ rest := by
      rw [Nat.succ_mul, ← Nat.add_assoc, ← List.drop_drop, hbytes, ← hwidth,
        List.drop_left' (length_toBigEndian _ _)]
    have hmore := ih (first + 1) hnext fun n hn => hsmall n (List.mem_cons_of_mem _ hn)
    rw [List.length_cons, List.range'_succ, appendElements,
      readNestedValue_encoded hknown (hsmall bits List.mem_cons_self) hbytes,
      hmany.nestedIndices_eq houter hinner]
    have hfirst : (Decoded.mk [payloadOffset + first * layout.valueBytes]
        (.ok ([memberValue kind bits], arrayIndices plan.arrayDimensions outer inner first))).result =
        .ok ([memberValue kind bits], arrayIndices plan.arrayDimensions outer inner first) := rfl
    exact Decoded.andThen_of_ok hfirst hmore

/-- The loop over the inner elements whose arrays stand one behind the other. -/
theorem appendInner_encoded (hknown : kind ≠ .unknown)
    (hwidth : primitiveWidth kind = layout.valueBytes) (hmany : ManyElements plan)
    (hproduct : plan.fixedArrayLength * layout.valueBytes ≤ uint32Max)
    {payloadStart outer : Nat} (houter : outer ≤ int32Max) {rest : List UInt8}
    (rows : List (List Nat)) (bodyEnd : Nat) :
    ∀ first total, bytes.drop (payloadStart + first * (plan.fixedArrayLength * layout.valueBytes)) =
        encodeRows (primitiveWidth kind) rows ++ rest →
      RowsFit ⟨primitiveWidth kind, plan.fixedArrayLength⟩ rows.length rows →
      first + rows.length ≤ int32Max →
      total + rows.length * plan.fixedArrayLength ≤ maxValuesPerEntry →
      payloadStart + (first + rows.length) * (plan.fixedArrayLength * layout.valueBytes) ≤
        bodyEnd →
      (appendInner bytes plan layout kind maxValuesPerEntry bodyEnd payloadStart
          (plan.fixedArrayLength * layout.valueBytes) outer (List.range' first rows.length)
          total).result =
        .ok (rows.flatten.map (memberValue kind),
          vectorIndices plan.arrayDimensions outer first rows) := by
  induction rows with
  | nil => exact fun _ _ _ _ _ _ _ => rfl
  | cons row rows ih =>
    intro first total hbytes hfits hcount htotal hend
    have hwidthPos : 0 < layout.valueBytes := by
      rw [← hwidth]
      cases kind
      case unknown => exact absurd rfl hknown
      all_goals decide
    have hlength : row.length = plan.fixedArrayLength := hfits.length_eq row List.mem_cons_self
    have hint : uint32Max ≤ uint64Max := by decide
    have hlengthPos := hmany.many
    rw [List.length_cons] at hcount htotal hend
    rw [Nat.succ_mul] at htotal
    rw [← Nat.add_assoc, Nat.succ_mul, Nat.add_mul] at hend
    rw [encodeRows, List.flatMap_cons, List.append_assoc] at hbytes
    have hnext : bytes.drop (payloadStart +
        (first + 1) * (plan.fixedArrayLength * layout.valueBytes)) =
        encodeRows (primitiveWidth kind) rows ++ rest := by
      rw [Nat.succ_mul, ← Nat.add_assoc, ← List.drop_drop, hbytes, encodeRows, List.drop_left']
      rw [length_flatMap_toBigEndian, hlength, hwidth]
    have hrow : (appendNestedFixedValues bytes plan layout kind maxValuesPerEntry bodyEnd
        (payloadStart + first * (plan.fixedArrayLength * layout.valueBytes)) outer first
        total).result = .ok (row.map (memberValue kind),
          (List.range row.length).flatMap (arrayIndices plan.arrayDimensions outer first)) := by
      rw [appendNestedFixedValues, if_neg]
      · have hnumbers := appendElements_encoded hknown hwidth hmany houter
          (show first ≤ int32Max by omega) row 0 (by rw [Nat.zero_mul, Nat.add_zero, hbytes])
          (hfits.small row List.mem_cons_self)
        rw [hlength] at hnumbers
        rw [hlength, List.range_eq_range']
        exact hnumbers
      · simp only [Bool.or_eq_true, decide_eq_true_eq, not_or, gt_iff_lt, Nat.not_lt]
        refine ⟨⟨⟨⟨⟨⟨⟨by omega, by omega⟩, by omega⟩, ?_⟩, by omega⟩, by omega⟩, houter⟩, by omega⟩
        rw [Nat.le_div_iff_mul_le hwidthPos]
        omega
    have hmore := ih (first + 1) (total + (row.map (memberValue kind)).length) hnext
      ⟨rfl, fun other hother => hfits.length_eq other (List.mem_cons_of_mem _ hother),
        fun other hother => hfits.small other (List.mem_cons_of_mem _ hother)⟩ (by omega)
      (by rw [List.length_map, hlength]; omega)
      (by rw [Nat.add_mul, Nat.add_mul, Nat.one_mul]; omega)
    rw [List.length_cons, List.range'_succ, appendInner, List.flatten_cons, List.map_append,
      vectorIndices]
    exact Decoded.andThen_of_ok hrow hmore

theorem entryValues_cons (vector : NestedVector) (vectors : List NestedVector) :
    entryValues kind (vector :: vectors) =
      vector.target.flatten.map (memberValue kind) ++ entryValues kind vectors := by
  rw [entryValues, List.flatMap_cons, entryValues]

theorem length_flatten_rows {column : StreamedColumn} {count : Nat} {rows : List (List Nat)}
    (h : RowsFit column count rows) : rows.flatten.length = count * column.length := by
  obtain ⟨hcount, hlength, -⟩ := h
  rw [List.length_flatten, List.map_congr_left hlength, List.map_const', List.sum_replicate_nat,
    hcount]

/-- The loop over the outer elements on the vectors of a body. -/
theorem decodeNestedOuter_encoded {columns : ElementColumns} {version : Int} {stride : Nat}
    (hresolves : Resolves plan version layout stride)
    (hcolumns : plan.onFileColumns version = some columns) (hknown : kind ≠ .unknown)
    (hwidth : primitiveWidth kind = layout.valueBytes) (hmany : ManyElements plan)
    {frameEnd : Nat} {rest : List UInt8} (vectors : List NestedVector) :
    ∀ outer position total,
      bytes.drop position = vectors.flatMap (encodeVector columns) ++ rest →
      (∀ vector ∈ vectors, VectorFits columns vector) →
      position + (vectors.flatMap (encodeVector columns)).length = frameEnd →
      outer + vectors.length ≤ int32Max →
      total + (entryValues kind vectors).length ≤ maxValuesPerEntry →
      (decodeNestedOuter bytes plan layout kind maxValuesPerEntry stride frameEnd vectors.length
          outer position total).result =
        .ok (entryValues kind vectors, entryIndices plan.arrayDimensions outer vectors) := by
  obtain ⟨columns', hcolumns', htarget, hbefore, hstride⟩ := hresolves.columns
  obtain rfl := Option.some.inj (hcolumns.symm.trans hcolumns')
  obtain ⟨-, -, -, -, -, -, -, -, -, hproduct, -⟩ := target_of_layout hresolves.layout_eq
  induction vectors with
  | nil =>
    intro outer position total _ _ hend _ _
    rw [List.flatMap_nil, List.length_nil, Nat.add_zero] at hend
    rw [List.length_nil, decodeNestedOuter, if_neg (not_not.mpr hend)]
    rfl
  | cons vector vectors ih =>
    intro outer position total hbytes hfits hend houter htotal
    have hvector := hfits vector List.mem_cons_self
    have hrows := hvector.target.count_eq
    have hsize := hvector.length_encode
    rw [htarget, StreamedColumn.bytes, ← hstride] at hsize
    rw [List.flatMap_cons, List.length_append, hsize] at hend
    rw [entryValues_cons, List.length_append, List.length_map,
      length_flatten_rows hvector.target, htarget] at htotal
    dsimp only at htotal
    rw [List.flatMap_cons, List.append_assoc] at hbytes
    have htail : bytes.drop (position + 4 + vector.count * stride) =
        vectors.flatMap (encodeVector columns) ++ rest := by
      rw [Nat.add_assoc, ← List.drop_drop, hbytes, List.drop_left' hsize]
    rw [encodeVector, List.append_assoc, List.append_assoc, List.append_assoc] at hbytes
    have hcount : readCount bytes position = vector.count := by
      rw [readCount, hbytes, ofBigEndian_take_append (hvector.count_small.trans (by decide))]
    have htargetBytes : bytes.drop (position + 4 +
        vector.count * layout.bytesBeforeValuePerElement) =
        encodeRows (primitiveWidth kind) vector.target ++
          (encodeColumns columns.after vector.after ++
            (vectors.flatMap (encodeVector columns) ++ rest)) := by
      rw [← List.drop_drop, ← List.drop_drop, hbytes, List.drop_left' (length_toBigEndian _ _),
        List.drop_left' (by rw [length_encodeColumns hvector.before, hbefore]), htarget, hwidth]
    have hint : int32Max = 2 ^ 31 - 1 := rfl
    have hsmall := hvector.count_small
    have hprojected : vector.count * layout.bytesBeforeValuePerElement +
        vector.count * (plan.fixedArrayLength * layout.valueBytes) ≤ vector.count * stride := by
      rw [← Nat.mul_add, hstride, hbefore, Nat.mul_comm plan.fixedArrayLength]
      exact Nat.mul_le_mul_left _ (Nat.le_add_right _ _)
    rw [List.length_cons] at houter
    have hinner := appendInner_encoded hknown hwidth hmany hproduct
      (show outer ≤ int32Max by omega) vector.target (position + 4 + vector.count * stride) 0 total
      (by rw [Nat.zero_mul, Nat.add_zero, htargetBytes])
      (by rw [hrows, hwidth]; exact htarget ▸ hvector.target) (by omega)
      (show _ ≤ maxValuesPerEntry by rw [hrows]; omega) (by rw [Nat.zero_add, hrows]; omega)
    have hmore := ih (outer + 1) (position + 4 + vector.count * stride)
      (total + (vector.target.flatten.map (memberValue kind)).length) htail
      (fun other hother => hfits other (List.mem_cons_of_mem _ hother)) (by omega) (by omega)
      (by rw [List.length_map, length_flatten_rows hvector.target, htarget]; dsimp only; omega)
    rw [List.length_cons, decodeNestedOuter, if_neg (by simp; omega)]
    dsimp only
    rw [hrows] at hinner
    rw [hcount, if_neg, if_neg, if_neg, entryValues_cons, entryIndices, List.range_eq_range']
    · exact Decoded.andThen_of_ok hinner hmore
    · simp only [Bool.and_eq_true, decide_eq_true_eq, not_and, gt_iff_lt, Nat.not_lt]
      intro hpositive
      rw [Nat.le_div_iff_mul_le hpositive, Nat.mul_comm]
      omega
    · simp only [Bool.or_eq_true, Bool.and_eq_true, decide_eq_true_eq, not_or, not_and, gt_iff_lt,
        Nat.not_lt]
      refine ⟨by omega, fun hpositive => ?_⟩
      rw [Nat.le_div_iff_mul_le (Nat.pos_of_ne_zero hpositive)]
      omega
    · simp only [Bool.or_eq_true, decide_eq_true_eq, not_or, gt_iff_lt, Nat.not_lt]
      refine ⟨⟨by omega, ?_⟩, by omega⟩
      rw [Nat.le_div_iff_mul_le (by have := hmany.many; omega)]
      omega

end Offsets

/-! ### Frames -/

/-- Bytes that are read as a version wherever they stand. -/
def WrittenVersion (reads : VersionReads) (version : Int) (versionBytes : List UInt8) : Prop :=
  ∀ before after : List UInt8,
    reads.readVersionForMemberWise (before ++ (versionBytes ++ after)) before.length =
      (version, before.length + versionBytes.length)

/-- The member-wise frame of the vectors of all outer elements. -/
def encodeFrame (columns : ElementColumns) (stlVersion : Nat) (versionBytes : List UInt8)
    (vectors : List NestedVector) : List UInt8 :=
  let body := versionBytes ++ vectors.flatMap (encodeVector columns)
  toBigEndian 4 (2 ^ 30 + (2 + body.length)) ++ (toBigEndian 2 (2 ^ 14 + stlVersion) ++ body)

/-- What a frame can hold: vectors of the declared columns, in less than `2 ^ 30` bytes. -/
structure FrameFits (columns : ElementColumns) (stlVersion : Nat) (versionBytes : List UInt8)
    (vectors : List NestedVector) : Prop where
  vectors_fit : ∀ vector ∈ vectors, VectorFits columns vector
  stlVersion_le : 8 ≤ stlVersion
  stlVersion_lt : stlVersion < 2 ^ 14
  size_lt : 2 + (versionBytes ++ vectors.flatMap (encodeVector columns)).length < 2 ^ 30

/-- A plan as it is built from the dictionary: a fixed array of primitives in two containers,
    with an index for each container and each dimension. -/
structure DictionaryPlan (plan : NestedFixedPlan) : Prop where
  selected : plan.isKind .nestedFixedMember = true
  container : plan.nestedContainerClass.isNone = false
  element : plan.nestedElementClass.isNone = false
  kind_known : classifySerializedPrimitive plan.valueType ≠ .unknown
  width_eq : primitiveWidth (classifySerializedPrimitive plan.valueType) = plan.valueBytes
  extents : ∀ d ∈ plan.arrayDimensions, 0 < d ∧ d ≤ int32Max
  prod_eq : plan.arrayDimensions.prod = plan.fixedArrayLength
  depth_eq : plan.arrayDimensions ≠ [] → plan.indexDepth = 2 + plan.arrayDimensions.length
  depth_large : 3 ≤ plan.indexDepth

section Frames

variable {reads : VersionReads} {plan : NestedFixedPlan} {version : Int}
  {layout : SerializedEntryLayout} {stride : Nat} {columns : ElementColumns} {stlVersion : Nat}
  {versionBytes before after : List UInt8} {vectors : List NestedVector}
  {cache : SerializedNestedFixedLayoutCache}

theorem DictionaryPlan.kind_eq (h : DictionaryPlan plan) (hlength : 0 < plan.fixedArrayLength)
    {outerCount : Nat} (houter : outerCount ≤ int32Max) :
    nestedFixedKind plan outerCount = .ok (classifySerializedPrimitive plan.valueType) := by
  have hknown := h.kind_known
  have hwidth := h.width_eq
  rw [nestedFixedKind]
  generalize classifySerializedPrimitive plan.valueType = kind at hknown hwidth ⊢
  have hbytes : plan.valueBytes ≠ 0 := by
    rw [← hwidth]
    cases kind
    case unknown => exact absurd rfl hknown
    all_goals decide
  rw [if_neg, if_neg]
  · simp [hknown, hwidth]
  · simp [h.selected, h.container, h.element, hbytes, Nat.ne_of_gt hlength]
    omega

theorem nestedFrame_encoded (hfits : FrameFits columns stlVersion versionBytes vectors) :
    nestedFrame reads (before ++ (encodeFrame columns stlVersion versionBytes vectors ++ after))
        before.length =
      .ok (before.length + 6, before.length + 6 +
        (versionBytes ++ vectors.flatMap (encodeVector columns)).length) := by
  obtain ⟨-, hlow, hhigh, hsize⟩ := hfits
  rw [encodeFrame]
  generalize versionBytes ++ vectors.flatMap (encodeVector columns) = body at hsize ⊢
  rw [List.append_assoc, List.append_assoc]
  have hdrop : (before ++ (toBigEndian 4 (2 ^ 30 + (2 + body.length)) ++
      (toBigEndian 2 (2 ^ 14 + stlVersion) ++ (body ++ after)))).drop before.length =
      toBigEndian 4 (2 ^ 30 + (2 + body.length)) ++
        (toBigEndian 2 (2 ^ 14 + stlVersion) ++ (body ++ after)) := List.drop_left' rfl
  have hlength : (before ++ (toBigEndian 4 (2 ^ 30 + (2 + body.length)) ++
      (toBigEndian 2 (2 ^ 14 + stlVersion) ++ (body ++ after)))).length =
      before.length + (6 + (body.length + after.length)) := by
    simp only [List.length_append, length_toBigEndian]
    omega
  generalize before ++ (toBigEndian 4 (2 ^ 30 + (2 + body.length)) ++
      (toBigEndian 2 (2 ^ 14 + stlVersion) ++ (body ++ after))) = bytes at hdrop hlength ⊢
  have hversion : ofBigEndian ((bytes.drop (before.length + 4)).take 2) = 2 ^ 14 + stlVersion := by
    rw [← List.drop_drop, hdrop, List.drop_left' (length_toBigEndian _ _)]
    exact ofBigEndian_take_append (by omega) _
  have hread := reads.framed bytes before.length (2 + body.length) (2 ^ 14 + stlVersion)
    (body ++ after) (by omega) (by omega) (by omega) hdrop
  rw [nestedFrame, if_neg (by simp; omega), hversion, hread]
  dsimp only
  rw [if_neg, if_neg]
  · congr 2
    omega
  · simp only [Bool.or_eq_true, decide_eq_true_eq, not_or]
    omega
  · have hmark : (2 ^ 14 + stlVersion) / 2 ^ 14 % 2 = 1 := by omega
    simp only [hmark, not_true_eq_false, if_true, false_or]
    omega

theorem Resolves.version_nonneg (h : Resolves plan version layout stride) : 0 ≤ version := by
  have hlayout := h.layout_eq
  rw [resolveSerializedNestedFixedLayout] at hlayout
  cases hclass : plan.nestedElementClass with
  | none =>
    rw [hclass] at hlayout
    exact absurd hlayout (by simp)
  | some elementClass =>
    rw [hclass] at hlayout
    dsimp only at hlayout
    obtain ⟨-, hlayout⟩ := of_check hlayout
    rw [resolveSerializedFixedLayout] at hlayout
    obtain ⟨hversion, -⟩ := of_check hlayout
    simp only [Bool.or_eq_true, decide_eq_true_eq, not_or] at hversion
    omega

theorem cachedNestedLayout_of_resolves (hconsistent : cache.Consistent plan)
    (h : Resolves plan version layout stride) :
    ∃ next, cachedNestedLayout plan version cache = .ok next ∧ next.layout = layout ∧
      next.elementStride = stride := by
  unfold cachedNestedLayout
  split_ifs with hcached
  · have hcache := hconsistent (hcached ▸ h.version_nonneg)
    rw [hcached] at hcache
    exact ⟨cache, rfl, Except.ok.inj (hcache.layout_eq.symm.trans h.layout_eq),
      Except.ok.inj (hcache.stride_eq.symm.trans h.stride_eq)⟩
  · rw [h.layout_eq]
    dsimp only
    rw [h.stride_eq]
    exact ⟨_, rfl, rfl, rfl⟩

/-- On a frame the decoder is the loop over the vectors. -/
theorem decode_frame_eq (hplan : DictionaryPlan plan) (hversion : WrittenVersion reads version versionBytes)
    (hresolves : Resolves plan version layout stride)
    (hfits : FrameFits columns stlVersion versionBytes vectors)
    (houter : vectors.length ≤ int32Max) (hconsistent : cache.Consistent plan)
    (maxValuesPerEntry : Nat) :
    (decodeSerializedNestedFixedColumn reads
        (before ++ (encodeFrame columns stlVersion versionBytes vectors ++ after)) before.length
        plan vectors.length maxValuesPerEntry cache).2 =
      checkIndices plan (decodeNestedOuter
        (before ++ (encodeFrame columns stlVersion versionBytes vectors ++ after)) plan layout
        (classifySerializedPrimitive plan.valueType) maxValuesPerEntry stride
        (before.length + 6 + (versionBytes ++ vectors.flatMap (encodeVector columns)).length)
        vectors.length 0 (before.length + 6 + versionBytes.length) 0) := by
  obtain ⟨-, -, -, -, -, -, -, hbytes, hlength, hproduct, -⟩ :=
    target_of_layout hresolves.layout_eq
  obtain ⟨fileColumns, -, -, hbefore, hstride⟩ := hresolves.columns
  obtain ⟨next, hcached, rfl, rfl⟩ := cachedNestedLayout_of_resolves hconsistent hresolves
  have hread : reads.readVersionForMemberWise
      (before ++ (encodeFrame columns stlVersion versionBytes vectors ++ after))
      (before.length + 6) = (version, before.length + 6 + versionBytes.length) := by
    rw [encodeFrame]
    generalize 2 ^ 30 + (2 + (versionBytes ++ vectors.flatMap (encodeVector columns)).length) = size
    have hframe := hversion (before ++ (toBigEndian 4 size ++ toBigEndian 2 (2 ^ 14 + stlVersion)))
      (vectors.flatMap (encodeVector columns) ++ after)
    rw [List.length_append, List.length_append, length_toBigEndian, length_toBigEndian] at hframe
    simpa only [List.append_assoc] using hframe
  have hint : uint32Max ≤ uint64Max := by decide
  rw [decodeSerializedNestedFixedColumn, hplan.kind_eq hlength houter]
  dsimp only
  rw [nestedFrame_encoded hfits]
  dsimp only
  rw [decodeNestedMemberWise, hread]
  dsimp only
  rw [if_neg (by have := hresolves.version_nonneg; omega), hcached]
  dsimp only
  rw [decodeNestedColumns, if_neg, if_neg, if_neg (by omega)]
  · simp only [Bool.or_eq_true, decide_eq_true_eq, not_or, gt_iff_lt, Nat.not_lt]
    rw [hstride, hbefore, Nat.mul_comm plan.fixedArrayLength]
    omega
  · simp only [Bool.or_eq_true, decide_eq_true_eq, not_or, gt_iff_lt, Nat.not_lt]
    rw [Nat.le_div_iff_mul_le hbytes]
    omega

end Frames

/-! ### Exactly the plans stored as the dictionary declares them -/

/-- A version that is read somewhere. -/
def Readable (reads : VersionReads) (version : Int) : Prop :=
  ∃ bytes position, (reads.readVersionForMemberWise bytes position).1 = version ∧
    (reads.readVersionForMemberWise bytes position).2 ≤ bytes.length

/-- The decoder gives what the full parse gives, on every frame, and on all bytes it reads inside
    the frame and consumes it. -/
structure DecodesAsParsed (reads : VersionReads) (plan : NestedFixedPlan) : Prop where
  agrees : ∀ {version layout stride columns stlVersion versionBytes vectors}
    {before after : List UInt8} {maxValuesPerEntry cache},
    WrittenVersion reads version versionBytes → Resolves plan version layout stride →
    plan.onFileColumns version = some columns →
    FrameFits columns stlVersion versionBytes vectors →
    (entryValues layout.primitiveKind vectors).length ≤ maxValuesPerEntry →
    cache.Consistent plan →
    ∃ decoded, decodeAllColumns columns layout.primitiveKind plan.arrayDimensions vectors.length
        (vectors.flatMap (encodeVector columns)) = some decoded ∧
      (decodeSerializedNestedFixedColumn reads
        (before ++ (encodeFrame columns stlVersion versionBytes vectors ++ after)) before.length
        plan vectors.length maxValuesPerEntry cache).2.result = .ok decoded
  inside : ∀ {bytes : List UInt8} {position outerCount maxValuesPerEntry cache},
    cache.Consistent plan →
    (∀ read ∈ (decodeSerializedNestedFixedColumn reads bytes position plan outerCount
        maxValuesPerEntry cache).2.reads,
      position ≤ read ∧ read + primitiveWidth (classifySerializedPrimitive plan.valueType) ≤
        position + (reads.readVersion bytes position).byteCount + 4) ∧
    ∀ {decoded}, (decodeSerializedNestedFixedColumn reads bytes position plan outerCount
        maxValuesPerEntry cache).2.result = .ok decoded →
      ∃ version layout stride, Resolves plan version layout stride ∧
        (reads.readVersionForMemberWise bytes (reads.readVersion bytes position).next).1 =
          version ∧
        Consumed bytes stride (position + (reads.readVersion bytes position).byteCount + 4)
          outerCount
          (reads.readVersionForMemberWise bytes (reads.readVersion bytes position).next).2

/-- Every version that is read and accepted has the dictionary's primitive, and the array has
    more than one number. -/
def StoredAsDictionary (reads : VersionReads) (plan : NestedFixedPlan) : Prop :=
  ∀ {version layout stride}, Readable reads version → Resolves plan version layout stride →
    SameOnFile plan layout ∧ 1 < plan.fixedArrayLength

section Exact

variable {reads : VersionReads} {plan : NestedFixedPlan} {version : Int}
  {layout : SerializedEntryLayout} {stride : Nat} {columns : ElementColumns}

theorem length_le_flatMap_encode (columns : ElementColumns) (vectors : List NestedVector) :
    4 * vectors.length ≤ (vectors.flatMap (encodeVector columns)).length := by
  induction vectors with
  | nil => exact Nat.zero_le _
  | cons vector vectors ih =>
    rw [List.flatMap_cons, List.length_append, List.length_cons, encodeVector, List.length_append,
      length_toBigEndian]
    omega

theorem drop_encodeFrame {before after versionBytes : List UInt8} {stlVersion : Nat}
    {vectors : List NestedVector} :
    (before ++ (encodeFrame columns stlVersion versionBytes vectors ++ after)).drop
        (before.length + 6 + versionBytes.length) =
      vectors.flatMap (encodeVector columns) ++ after := by
  rw [← List.drop_drop, ← List.drop_drop, List.drop_left' rfl, encodeFrame]
  generalize 2 ^ 30 + (2 + (versionBytes ++ vectors.flatMap (encodeVector columns)).length) = size
  rw [show 6 = 4 + 2 from rfl, ← List.drop_drop, List.append_assoc,
    List.drop_left' (length_toBigEndian _ _), List.append_assoc,
    List.drop_left' (length_toBigEndian _ _), List.append_assoc, List.drop_left' rfl]

theorem DictionaryPlan.manyElements (h : DictionaryPlan plan) (hmany : 1 < plan.fixedArrayLength) :
    ManyElements plan :=
  ⟨hmany, h.prod_eq, h.extents⟩

theorem decodes_of_same (hplan : DictionaryPlan plan) (hsame : StoredAsDictionary reads plan) :
    DecodesAsParsed reads plan where
  agrees {version layout stride columns stlVersion versionBytes vectors before after
      maxValuesPerEntry cache} hversion hresolves hcolumns hfits htotal hconsistent := by
    have hreadable : Readable reads version := by
      have hread := hversion [] []
      exact ⟨_, _, congrArg Prod.fst hread, by rw [hread]; simp⟩
    obtain ⟨⟨hkind, hbytes⟩, hmore⟩ := hsame hreadable hresolves
    have hmany := hplan.manyElements hmore
    have hwidth := hplan.width_eq.trans hbytes.symm
    have hcount := length_le_flatMap_encode columns vectors
    have hint : int32Max = 2 ^ 31 - 1 := rfl
    have hsize := hfits.size_lt
    rw [List.length_append] at hsize
    refine ⟨_, decodeAllColumns_encoded hfits.vectors_fit _ _, ?_⟩
    rw [decode_frame_eq hplan hversion hresolves hfits (by omega) hconsistent maxValuesPerEntry]
    rw [hkind] at htotal ⊢
    have hdecoded : (decodeNestedOuter
        (before ++ (encodeFrame columns stlVersion versionBytes vectors ++ after)) plan layout
        (classifySerializedPrimitive plan.valueType) maxValuesPerEntry stride
        (before.length + 6 + (versionBytes ++ vectors.flatMap (encodeVector columns)).length)
        vectors.length 0 (before.length + 6 + versionBytes.length) 0).result =
        .ok (entryValues (classifySerializedPrimitive plan.valueType) vectors,
          entryIndices plan.arrayDimensions 0 vectors) :=
      decodeNestedOuter_encoded hresolves hcolumns hplan.kind_known hwidth hmany vectors 0 _ 0
        drop_encodeFrame hfits.vectors_fit (by rw [List.length_append]; omega) (by omega)
        (by omega)
    refine checkIndices_ok.mpr ⟨hdecoded, ?_⟩
    rw [decodeNestedOuter_uniform _ _ _ _ hdecoded, hmany.pushedDepth_eq,
      hplan.depth_eq hmany.dimensions_ne]
  inside {bytes position outerCount maxValuesPerEntry cache} hconsistent := by
    obtain ⟨-, hrejected | hdecoded⟩ := @decodeSerializedNestedFixedColumn_cases reads bytes plan
      position outerCount maxValuesPerEntry cache hconsistent
    · obtain ⟨reason, hrun⟩ := hrejected
      rw [hrun]
      exact ⟨fun read hmem => absurd hmem List.not_mem_nil,
        fun h => absurd h (by simp [Decoded.rejected])⟩
    · obtain ⟨kind, next, frameEnd, version, start, layout, stride, hkind, hframe, hversion,
        hresolves, hrun⟩ := hdecoded
      obtain ⟨rfl, hknown, hwidth, -⟩ := nestedFixedKind_ok hkind
      obtain ⟨rfl, rfl, hend⟩ := nestedFrame_ok hframe
      rw [hrun, checkIndices_reads]
      have hstart := reads.start_le bytes position
      have hnext := reads.memberWise_le bytes (reads.readVersion bytes position).next
      rw [hversion] at hnext
      refine ⟨?_, fun {decoded} h => ⟨version, layout, stride, hresolves, by rw [hversion], ?_⟩⟩
      · by_cases hread : start ≤ bytes.length
        · have hreadable : Readable reads version := ⟨bytes, _, congrArg Prod.fst hversion, by
            rw [hversion]; exact hread⟩
          obtain ⟨⟨-, hbytes⟩, -⟩ := hsame hreadable hresolves
          exact decodeNestedOuter_within (hwidth.trans hbytes.symm) outerCount 0 start 0
            (hstart.trans hnext)
        · rw [decodeNestedOuter_outside outerCount (by omega)]
          exact fun read hmem => absurd hmem List.not_mem_nil
      · obtain ⟨values, indices⟩ := decoded
        rw [hversion]
        exact consumed_of_ok outerCount (checkIndices_ok.mp h).1

/-- One inner element whose member's numbers all have the same bits, the others being zero. -/
def uniformVector (columns : ElementColumns) (bits : Nat) : NestedVector where
  count := 1
  before := columns.before.map fun column => [List.replicate column.length 0]
  target := [List.replicate columns.target.length bits]
  after := columns.after.map fun column => [List.replicate column.length 0]

theorem rowsFit_replicate {column : StreamedColumn} {bits : Nat} (h : bits < 256 ^ column.width) :
    RowsFit column 1 [List.replicate column.length bits] where
  count_eq := rfl
  length_eq := by simp
  small := by
    intro row hrow n hn
    rw [List.mem_singleton.mp hrow] at hn
    rwa [List.eq_of_mem_replicate hn]

theorem uniformVector_fits {bits : Nat} (h : bits < 256 ^ columns.target.width) :
    VectorFits columns (uniformVector columns bits) where
  count_small := (by decide : 1 < 2 ^ 31)
  before := List.forall₂_map_right_iff.mpr (List.forall₂_same.mpr fun _ _ =>
    rowsFit_replicate (Nat.pow_pos (by decide)))
  target := rowsFit_replicate h
  after := List.forall₂_map_right_iff.mpr (List.forall₂_same.mpr fun _ _ =>
    rowsFit_replicate (Nat.pow_pos (by decide)))

/-- A version that is read can be written in at most six bytes. -/
theorem Readable.written (h : Readable reads version) :
    ∃ versionBytes, WrittenVersion reads version versionBytes ∧ versionBytes.length ≤ 6 := by
  obtain ⟨bytes, position, rfl, hinside⟩ := h
  have hle := reads.memberWise_le bytes position
  have hsmall := reads.memberWise_small bytes position
  have hlength : ((bytes.drop position).take
      ((reads.readVersionForMemberWise bytes position).2 - position)).length =
      (reads.readVersionForMemberWise bytes position).2 - position := by
    rw [List.length_take, List.length_drop]
    omega
  refine ⟨_, fun before after => ?_, by rw [hlength]; omega⟩
  rw [hlength]
  exact reads.memberWise_local bytes position hinside before after

/-- The first value of one inner element is the number at its offset. -/
theorem first_value {bytes : List UInt8} {kind : SerializedPrimitiveKind}
    {maxValuesPerEntry frameEnd position total : Nat} {values : List RootPrimitiveValue}
    {indices : List Int} (hlength : 0 < plan.fixedArrayLength)
    (hcount : readCount bytes position = 1)
    (h : (decodeNestedOuter bytes plan layout kind maxValuesPerEntry stride frameEnd 1 0 position
      total).result = .ok (values, indices)) :
    ∃ value more, values = value :: more ∧
      readNestedValue bytes kind (position + 4 + layout.bytesBeforeValuePerElement) =
        .ok value := by
  rw [decodeNestedOuter, hcount] at h
  dsimp only at h
  split_ifs at h
  · exact absurd h (by simp [Decoded.rejected])
  · exact absurd h (by simp [Decoded.rejected])
  · exact absurd h (by simp [Decoded.rejected])
  · exact absurd h (by simp [Decoded.rejected])
  obtain ⟨values₁, _, _, _, hinner, -, rfl, -⟩ := Decoded.andThen_ok h
  rw [List.range_one, appendInner] at hinner
  obtain ⟨values₂, _, _, _, harray, -, rfl, -⟩ := Decoded.andThen_ok hinner
  rw [appendNestedFixedValues] at harray
  split_ifs at harray
  · exact absurd harray (by simp [Decoded.rejected])
  obtain ⟨count, hcount⟩ := Nat.exists_eq_succ_of_ne_zero (Nat.ne_of_gt hlength)
  rw [hcount, List.range_succ_eq_map, appendElements] at harray
  obtain ⟨values₃, _, _, _, hvalue, -, rfl, -⟩ := Decoded.andThen_ok harray
  dsimp only at hvalue
  rw [Nat.zero_mul, Nat.add_zero, Nat.zero_mul, Nat.add_zero, Nat.one_mul] at hvalue
  cases hread : readNestedValue bytes kind
      (position + 4 + layout.bytesBeforeValuePerElement) with
  | error e =>
    rw [hread] at hvalue
    exact absurd hvalue (by simp)
  | ok value =>
    rw [hread] at hvalue
    dsimp only at hvalue
    cases hindices : nestedIndices plan 0 0 0 with
    | error e =>
      rw [hindices] at hvalue
      exact absurd hvalue (by simp)
    | ok pushed =>
      rw [hindices] at hvalue
      obtain ⟨rfl, -⟩ := Prod.mk.inj (Except.ok.inj hvalue)
      exact ⟨value, _, rfl, rfl⟩

/-- What the decoder does with a frame of one inner element, if it decodes as the full parse. -/
theorem DecodesAsParsed.uniform (h : DecodesAsParsed reads plan) (hplan : DictionaryPlan plan)
    (hreadable : Readable reads version) (hresolves : Resolves plan version layout stride)
    (hsmall : stride + 16 ≤ 2 ^ 30) {bits : Nat} (hbits : bits < 256 ^ layout.valueBytes) :
    pushedDepth plan = plan.indexDepth ∧
      ∃ bytes position rest, bytes.drop position = toBigEndian layout.valueBytes bits ++ rest ∧
        readNestedValue bytes (classifySerializedPrimitive plan.valueType) position =
          .ok (memberValue layout.primitiveKind bits) := by
  obtain ⟨columns, hcolumns, htarget, hbefore, hstride⟩ := hresolves.columns
  obtain ⟨-, -, -, -, -, -, -, -, hlength, -⟩ := target_of_layout hresolves.layout_eq
  obtain ⟨versionBytes, hwritten, hshort⟩ := hreadable.written
  have hfit : VectorFits columns (uniformVector columns bits) :=
    uniformVector_fits (by rw [htarget]; exact hbits)
  have hsize := hfit.length_encode
  rw [htarget, StreamedColumn.bytes, ← hstride] at hsize
  have hfits : FrameFits columns 8 versionBytes [uniformVector columns bits] := by
    refine ⟨fun vector hmem => List.mem_singleton.mp hmem ▸ hfit, le_rfl, by decide, ?_⟩
    rw [List.length_append, List.flatMap_singleton, hsize]
    simp only [uniformVector]
    omega
  have hvalues : entryValues layout.primitiveKind [uniformVector columns bits] =
      List.replicate plan.fixedArrayLength (memberValue layout.primitiveKind bits) := by
    simp [entryValues, uniformVector, htarget]
  obtain ⟨decoded, hparsed, hdecoded⟩ := @DecodesAsParsed.agrees reads plan h version layout stride
    columns 8 versionBytes [uniformVector columns bits] [] [] plan.fixedArrayLength
    ⟨version, layout, stride⟩ hwritten hresolves hcolumns hfits
    (by rw [hvalues, List.length_replicate]) fun _ => hresolves
  rw [decodeAllColumns_encoded hfits.vectors_fit] at hparsed
  rw [← Option.some.inj hparsed, hvalues, decode_frame_eq hplan hwritten hresolves hfits
    (by rw [List.length_singleton]; decide) fun _ => hresolves] at hdecoded
  obtain ⟨hloop, hdepth⟩ := checkIndices_ok.mp hdecoded
  rw [decodeNestedOuter_uniform _ _ _ _ hloop, List.length_replicate] at hdepth
  have hdrop := @drop_encodeFrame columns [] [] versionBytes 8 [uniformVector columns bits]
  generalize ([] : List UInt8) ++ (encodeFrame columns 8 versionBytes
    [uniformVector columns bits] ++ []) = bytes at hloop hdrop
  generalize ([] : List UInt8).length + 6 + versionBytes.length = start at hloop hdrop
  rw [List.flatMap_singleton, encodeVector, List.append_assoc, List.append_assoc,
    List.append_assoc] at hdrop
  have hcount : readCount bytes start = 1 := by
    rw [readCount, hdrop]
    exact ofBigEndian_take_append (hfit.count_small.trans (by decide)) _
  obtain ⟨value, more, hfirst, hread⟩ := first_value hlength hcount hloop
  obtain ⟨count, hlengthSucc⟩ := Nat.exists_eq_succ_of_ne_zero (Nat.ne_of_gt hlength)
  rw [hlengthSucc, List.replicate_succ] at hfirst
  rw [← (List.cons.inj hfirst).1] at hread
  have hbytes : bytes.drop (start + 4 + layout.bytesBeforeValuePerElement) =
      toBigEndian layout.valueBytes bits ++ ((List.replicate count bits).flatMap
        (toBigEndian layout.valueBytes) ++ encodeColumns columns.after
          (uniformVector columns bits).after ++ []) := by
    rw [← List.drop_drop, ← List.drop_drop, hdrop, List.drop_left' (length_toBigEndian _ _),
      List.drop_left' (by rw [length_encodeColumns hfit.before, hbefore]; exact Nat.one_mul _)]
    simp [uniformVector, encodeRows, htarget, hlengthSucc, List.replicate_succ]
  exact ⟨Nat.eq_of_mul_eq_mul_left hlength hdepth, bytes, _, _, hbytes, hread⟩

/-- Where the file has a `FLOAT32` the decoder reads a `FLOAT64`: the bytes of one are not the
    bytes of the other. -/
theorem not_widened {bytes rest : List UInt8} {position : Nat}
    (hbytes : bytes.drop position = toBigEndian 4 0x3F800000 ++ rest) :
    readNestedValue bytes .float64 position ≠ .ok (memberValue .float32 0x3F800000) := by
  intro h
  rw [readNestedValue, hbytes] at h
  split_ifs at h with houtside
  rw [decodePrimitive] at h
  split_ifs at h with hshort
  have htake : (toBigEndian 4 0x3F800000 ++ rest).take (primitiveWidth .float64) =
      toBigEndian 4 0x3F800000 ++ rest.take 4 := rfl
  rw [htake, ofBigEndian_append, ofBigEndian_toBigEndian (by decide)] at h
  have hlength : (rest.take 4).length = 4 := by
    have hwidth : primitiveWidth .float64 = 8 := rfl
    rw [List.length_append, length_toBigEndian, hwidth] at hshort
    rw [List.length_take]
    omega
  have hlow := ofBigEndian_lt (rest.take 4)
  rw [hlength] at h hlow
  generalize ofBigEndian (rest.take 4) = low at h hlow
  have hword : UInt64.ofNat (0x3F800000 * 256 ^ 4 + low) = 0x3FF0000000000000 := by
    have hone : memberValue .float32 0x3F800000 = .floating ⟨0x3FF0000000000000⟩ := by decide
    rw [hone] at h
    simpa [primitiveOfBits] using h
  have hnat := congrArg UInt64.toNat hword
  have hone : (0x3FF0000000000000 : UInt64).toNat = 0x3FF00000 * 2 ^ 32 := by decide
  rw [hone, UInt64.toNat_ofNat'] at hnat
  clear hword
  omega

/-- A plan that is decoded as the full parse decodes it is stored as the dictionary declares
    it, with several numbers in an array. -/
theorem same_of_decodes (hplan : DictionaryPlan plan) (h : DecodesAsParsed reads plan)
    (hreadable : Readable reads version) (hresolves : Resolves plan version layout stride)
    (hsmall : stride + 16 ≤ 2 ^ 30) : SameOnFile plan layout ∧ 1 < plan.fixedArrayLength := by
  obtain ⟨-, -, -, -, -, -, -, -, hlength, -, -, hstored⟩ := target_of_layout hresolves.layout_eq
  constructor
  · rcases hstored with hsame | ⟨hfile, hdictionary, hbytes, -⟩
    · exact hsame
    · obtain ⟨-, bytes, position, rest, hdrop, hread⟩ :=
        h.uniform hplan hreadable hresolves hsmall
        (show 0x3F800000 < 256 ^ layout.valueBytes by rw [hbytes]; decide)
      rw [hbytes] at hdrop
      rw [hfile, hdictionary] at hread
      exact absurd hread (not_widened hdrop)
  · obtain ⟨hdepth, -⟩ := h.uniform hplan hreadable hresolves hsmall
      (Nat.pow_pos (by decide) : 0 < 256 ^ layout.valueBytes)
    have hlarge := hplan.depth_large
    by_contra hone
    rw [pushedDepth, if_pos (by omega)] at hdepth
    omega

end Exact

/-- A plan is decoded as the full parse decodes it when its accepted versions store the
dictionary's primitive in arrays of several numbers; and this is so for every version one of
whose elements fits a frame, if the plan is decoded like that. -/
theorem nested_fixed_meets_iff (reads : VersionReads) {plan : NestedFixedPlan}
    (hplan : DictionaryPlan plan) :
    (StoredAsDictionary reads plan → DecodesAsParsed reads plan) ∧
      (DecodesAsParsed reads plan → ∀ {version layout stride}, Readable reads version →
        Resolves plan version layout stride → stride + 16 ≤ 2 ^ 30 →
        SameOnFile plan layout ∧ 1 < plan.fixedArrayLength) :=
  ⟨decodes_of_same hplan, fun h _ _ _ => same_of_decodes hplan h⟩

/-! ### A class whose energies were stored as floats -/

/-- The reads of versions without a checksum. -/
def plainReads : VersionReads where
  readVersion bytes position :=
    let word := ofBigEndian ((bytes.drop position).take 4)
    if word / 2 ^ 30 % 2 = 1 then ⟨position, word % 2 ^ 30, position + 6⟩
    else ⟨position, 0, position + 2⟩
  readVersionForMemberWise bytes position :=
    ((Int16.ofNat (ofBigEndian ((bytes.drop position).take 2))).toInt, position + 2)
  start_eq bytes position := by
    dsimp only
    split_ifs <;> rfl
  start_le bytes position := by
    dsimp only
    split_ifs <;> exact Nat.le_add_right _ _
  framed bytes position byteCount version rest hbyteCount _ _ hbytes := by
    dsimp only
    rw [hbytes, ofBigEndian_take_append (by omega), if_pos (by omega)]
    congr 1
    omega
  memberWise_le _ _ := Nat.le_add_right _ _
  memberWise_small _ position := Nat.add_le_add_left (by decide) position
  memberWise_local bytes position hinside before after := by
    have hlength : ((bytes.drop position).take (position + 2 - position)).length = 2 := by
      rw [List.length_take, List.length_drop]
      omega
    dsimp only at hinside ⊢
    rw [List.drop_left' rfl, List.take_left' hlength, Nat.add_sub_cancel_left]

/-- A track with a pair of energies, floats in the first version. -/
def trackClass : StreamedClass where
  classVersion := 2
  streamerInfo version :=
    if version = 1 then
      some [some { name := "fE", typeName := "Float_t", type := 25, maxIndex := [2] }]
    else none

/-- The pair of energies, of a type in the dictionary. -/
def energyPlan (valueType : String) (valueBytes : Nat) : NestedFixedPlan where
  projection := .selected .nestedFixedMember
  nestedContainerClass := some 1
  nestedElementClass := some trackClass
  nestedMemberName := "fE"
  valueType := valueType
  valueBytes := valueBytes
  fixedArrayLength := 2
  arrayDimensions := [2]
  indexDepth := 3

theorem energyPlan_dictionary {valueType : String} {valueBytes : Nat}
    (hknown : classifySerializedPrimitive valueType ≠ .unknown)
    (hwidth : primitiveWidth (classifySerializedPrimitive valueType) = valueBytes) :
    DictionaryPlan (energyPlan valueType valueBytes) where
  selected := rfl
  container := rfl
  element := rfl
  kind_known := hknown
  width_eq := hwidth
  extents := by
    intro d hd
    rw [List.mem_singleton.mp hd]
    decide
  prod_eq := rfl
  depth_eq _ := rfl
  depth_large := le_rfl

/-- Floats that are floats in the dictionary are decoded as the full parse decodes them. -/
theorem energies_of_floats : DecodesAsParsed plainReads (energyPlan "Float_t" 4) := by
  refine (nested_fixed_meets_iff plainReads
    (energyPlan_dictionary (by decide) (by decide))).1 fun _ hresolves => ?_
  obtain ⟨-, -, -, -, -, -, -, -, -, -, -, hsame | hwidened⟩ := target_of_layout hresolves.layout_eq
  · exact ⟨hsame, by decide⟩
  · exact absurd hwidened.2.1 (by decide)

/-- Floats that are doubles in the dictionary are not. -/
theorem energies_widened_differ : ¬ DecodesAsParsed plainReads (energyPlan "Double_t" 8) := by
  intro h
  have hresolves : Resolves (energyPlan "Double_t" 8) 1
      { valueType := "Float_t", primitiveKind := .float32, valueBytes := 4, fixedArrayLength := 2,
        arrayDimensions := [2], indexDepth := 2 } 8 := ⟨by decide +kernel, by decide +kernel⟩
  have hreadable : Readable plainReads 1 := ⟨[0, 1], 0, by decide, by decide⟩
  have hsame := same_of_decodes (energyPlan_dictionary (by decide) (by decide)) h hreadable
    hresolves (by decide)
  exact absurd hsame.1.2 (by decide)

end RootLake.Serialized

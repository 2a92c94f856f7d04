import Mathlib.Algebra.BigOperators.Group.List.Basic
import Mathlib.Algebra.Order.BigOperators.GroupWithZero.List
import RootLake.Serialized.VectorPages

/-!
# Entries of a member-wise vector

An entry of a member-wise vector is a frame around one column per member. `decodeVectorEntry`
checks the frame and decodes the column of one member, in 64-bit arithmetic on counts and
widths it does not trust; reading a byte outside the entry is a failure of its own here. It
never happens (`decodeVectorEntry_inside`), and the decoder inverts the encoding
(`decodeVectorEntry_encoded`).
-/

namespace RootLake.Serialized

open RootLake.Bytes

/-! ### The checked cursor -/

/-- A cursor over untrusted bytes. -/
structure CheckedByteCursor where
  data : List UInt8
  offset : Nat := 0

namespace CheckedByteCursor

def remaining (cursor : CheckedByteCursor) : Nat := cursor.data.length - cursor.offset

/-- `Take`: the next bytes, if there are that many. -/
def take (cursor : CheckedByteCursor) (requested : Nat) :
    Option (List UInt8 × CheckedByteCursor) :=
  if requested > cursor.remaining then none
  else some ((cursor.data.drop cursor.offset).take requested,
    { cursor with offset := cursor.offset + requested })

/-- `ReadBE16`, `ReadBE32` and `ReadBE64`. -/
def readBE (cursor : CheckedByteCursor) (width : Nat) : Option (Nat × CheckedByteCursor) :=
  (cursor.take width).map fun (bytes, next) => (ofBigEndian bytes, next)

end CheckedByteCursor

/-! ### The decoder -/

/-- How a decoder of untrusted bytes ends without values: it says why, or it reads a byte that
    is not there. -/
inductive DecodeFailure where
  | rejected (reason : String)
  | outside (position : Nat)
  deriving DecidableEq, Repr

/-- A result of 64-bit arithmetic. -/
def wrap64 (n : Nat) : Nat := n % 2 ^ 64

/-- `DecodePrimitive(bytes + position, kind, value)`. -/
def decodePrimitiveAt (bytes : List UInt8) (layout : SerializedEntryLayout)
    (kind : SerializedPrimitiveKind) (position : Nat) :
    Except DecodeFailure RootPrimitiveValue :=
  if position + primitiveWidth kind > bytes.length then .error (.outside position)
  else
    match decodePrimitive (bytes.drop position) kind with
    | none => .error (.rejected ("unsupported primitive decoder for " ++ layout.valueType))
    | some value => .ok value

/-- The two loops of `DecodeVectorPayload`; `projected` is where the member's column starts. -/
def decodeValuesAt (bytes : List UInt8) (layout : SerializedEntryLayout)
    (kind : SerializedPrimitiveKind) (projected : Nat) :
    List (Nat × Nat) → Except DecodeFailure (List RootPrimitiveValue × List Int)
  | [] => .ok ([], [])
  | (element, arrayIndex) :: positions =>
      let flat := wrap64 (element * layout.fixedArrayLength + arrayIndex)
      match decodePrimitiveAt bytes layout kind
        (wrap64 (projected + wrap64 (flat * layout.valueBytes))) with
      | .error e => .error e
      | .ok value =>
          match decodeValuesAt bytes layout kind projected positions with
          | .error e => .error e
          | .ok (values, indices) =>
              .ok (value :: values, valueIndices layout element arrayIndex ++ indices)

/-- `DecodeVectorPayload` in 64-bit arithmetic. -/
def decodeVectorPayload64 (bytes : List UInt8) (payloadOffset count : Nat)
    (layout : SerializedEntryLayout) (maxValuesPerEntry : Nat) :
    Except DecodeFailure (List RootPrimitiveValue × List Int) :=
  if payloadOffset > bytes.length then
    .error (.rejected "serialized vector payload starts outside its entry")
  else
    match validatePrimitiveLayout rootCodec layout (1 + arrayRank layout) with
    | .error reason => .error (.rejected reason)
    | .ok kind =>
        match dimensionsProduct "serialized fixed-array dimensions are invalid"
            layout.arrayDimensions 1 with
        | .error reason => .error (.rejected reason)
        | .ok product =>
            if !layout.arrayDimensions.isEmpty && product ≠ layout.fixedArrayLength then
              .error (.rejected "serialized fixed-array dimensions do not match its length")
            else if count > int32Max || count > maxValuesPerEntry ||
                count > maxValuesPerEntry / layout.fixedArrayLength then
              .error (.rejected
                "serialized vector element count exceeds configured safety limit")
            else if (layout.bytesBeforeValuePerElement ≠ 0 &&
                count > uint64Max / layout.bytesBeforeValuePerElement) ||
                count > uint64Max / layout.fixedArrayLength then
              .error (.rejected "serialized vector size arithmetic overflow")
            else
              let prefixBytes := wrap64 (count * layout.bytesBeforeValuePerElement)
              let valueCount := wrap64 (count * layout.fixedArrayLength)
              if valueCount > uint64Max / layout.valueBytes ||
                  valueCount > uint64Max / layout.indexDepth then
                .error (.rejected "serialized projected member size arithmetic overflow")
              else if prefixBytes > bytes.length - payloadOffset ||
                  wrap64 (valueCount * layout.valueBytes) >
                    bytes.length - payloadOffset - prefixBytes then
                .error (.rejected "projected member range exceeds serialized entry")
              else
                decodeValuesAt bytes layout kind (wrap64 (payloadOffset + prefixBytes))
                  (positions layout count)

/-- `ROOT_BYTE_COUNT_MASK` and `ROOT_BYTE_COUNT_VALUE_MASK`. -/
def byteCountMask : Nat := 2 ^ 30

/-- The marker bit of a byte count. -/
def hasByteCount (byteCount : Nat) : Bool := byteCount / byteCountMask % 2 = 1

/-- The three numbers at the head of an entry. -/
def readHeader (bytes : List UInt8) : Option (Nat × Nat × Nat × CheckedByteCursor) :=
  let cursor : CheckedByteCursor := { data := bytes }
  (cursor.readBE 4).bind fun (byteCount, cursor) =>
    (cursor.readBE 4).bind fun (memberwiseHeader, cursor) =>
      (cursor.readBE 4).map fun (count, cursor) => (byteCount, memberwiseHeader, count, cursor)

/-- `DecodeVectorEntry`, with the member-wise header it has observed. -/
def decodeVectorEntry (bytes : List UInt8) (layout : SerializedEntryLayout)
    (maxValuesPerEntry observedMemberwiseHeader : Nat) :
    Except DecodeFailure (List RootPrimitiveValue × List Int) × Nat :=
  match readHeader bytes with
  | none =>
      (.error (.rejected "serialized vector entry is shorter than its header"),
        observedMemberwiseHeader)
  | some (byteCount, memberwiseHeader, count, cursor) =>
      if !hasByteCount byteCount then
        (.error (.rejected "serialized vector entry has no ROOT byte-count marker"),
          observedMemberwiseHeader)
      else if byteCount % byteCountMask + 4 ≠ bytes.length then
        (.error (.rejected "serialized vector byte-count does not match entry offsets"),
          observedMemberwiseHeader)
      else if memberwiseHeader = 0 then
        (.error (.rejected "serialized vector has an empty member-wise header"),
          observedMemberwiseHeader)
      else
        let observed :=
          if observedMemberwiseHeader = 0 then memberwiseHeader else observedMemberwiseHeader
        if memberwiseHeader ≠ observed then
          (.error (.rejected
            "member-wise streamer header changed inside one physical branch"), observed)
        else (decodeVectorPayload64 bytes cursor.offset count layout maxValuesPerEntry, observed)

/-! ### The 64-bit decoder reads inside the entry -/

theorem wrap64_of_le {n : Nat} (h : n ≤ uint64Max) : wrap64 n = n :=
  Nat.mod_eq_of_lt (Nat.lt_of_le_pred (by decide) h)

/-- Where the members' bytes are in the entry, the 64-bit loops are the loops over numbers. -/
theorem decodeValuesAt_eq {bytes : List UInt8} {layout : SerializedEntryLayout}
    {kind : SerializedPrimitiveKind} {projected : Nat} (hsize : bytes.length ≤ uint64Max)
    (hwidth : primitiveWidth kind = layout.valueBytes) (hpositive : layout.valueBytes ≠ 0)
    (positions : List (Nat × Nat))
    (h : ∀ position ∈ positions,
      projected + (position.1 * layout.fixedArrayLength + position.2) * layout.valueBytes +
        layout.valueBytes ≤ bytes.length) :
    decodeValuesAt bytes layout kind projected positions =
      (decodeValues rootCodec layout kind (bytes.drop projected) positions).mapError
        .rejected := by
  induction positions with
  | nil => rfl
  | cons position positions ih =>
    obtain ⟨element, arrayIndex⟩ := position
    have hhead := h (element, arrayIndex) List.mem_cons_self
    dsimp only at hhead
    generalize hflat : element * layout.fixedArrayLength + arrayIndex = flat at hhead
    have hflatLe : flat ≤ flat * layout.valueBytes :=
      Nat.le_mul_of_pos_right flat (Nat.pos_of_ne_zero hpositive)
    rw [decodeValuesAt, decodeValues, hflat, wrap64_of_le (n := flat) (by omega),
      wrap64_of_le (n := flat * layout.valueBytes) (by omega),
      wrap64_of_le (n := projected + flat * layout.valueBytes) (by omega),
      ih fun position hmem => h position (List.mem_cons_of_mem _ hmem)]
    dsimp only
    rw [List.drop_drop, decodePrimitiveAt, if_neg (by omega)]
    cases hvalue : decodePrimitive (bytes.drop (projected + flat * layout.valueBytes)) kind with
    | none =>
      simp only [rootCodec_decodePrimitive, hvalue]
      rfl
    | some value =>
      simp only [rootCodec_decodePrimitive, hvalue]
      cases decodeValues rootCodec layout kind (bytes.drop projected) positions <;> rfl

/-- A check that both decoders make. -/
theorem mapError_check {α : Type} {failed : Prop} [Decidable failed] (reason : String)
    {rest : Except DecodeFailure α} {plain : Except String α}
    (h : ¬ failed → rest = plain.mapError .rejected) :
    (if failed then .error (.rejected reason) else rest) =
      (if failed then .error reason else plain).mapError .rejected := by
  by_cases hfailed : failed
  · rw [if_pos hfailed, if_pos hfailed]
    rfl
  · rw [if_neg hfailed, if_neg hfailed, h hfailed]

theorem mul_le_of_le_div {count width bound : Nat} (h : width ≠ 0 → count ≤ bound / width) :
    count * width ≤ bound := by
  by_cases hzero : width = 0
  · rw [hzero, Nat.mul_zero]
    exact Nat.zero_le bound
  · exact (Nat.le_div_iff_mul_le (Nat.pos_of_ne_zero hzero)).mp (h hzero)

/-- In 64-bit arithmetic the decoder of a payload does what it does in numbers: its checks
    leave no product to wrap. -/
theorem decodeVectorPayload64_eq {bytes : List UInt8} (hsize : bytes.length ≤ uint64Max)
    (payloadOffset count : Nat) (layout : SerializedEntryLayout) (maxValuesPerEntry : Nat) :
    decodeVectorPayload64 bytes payloadOffset count layout maxValuesPerEntry =
      (decodeVectorPayload rootCodec bytes payloadOffset count layout
        maxValuesPerEntry).mapError .rejected := by
  unfold decodeVectorPayload64 decodeVectorPayload
  simp only [bind, Except.bind, throw, throwThe, MonadExceptOf.throw]
  refine mapError_check _ fun _ => ?_
  cases hlayout : validatePrimitiveLayout rootCodec layout (1 + arrayRank layout) with
  | error reason => rfl
  | ok kind =>
    obtain ⟨-, hwidth, hpositive⟩ := validatePrimitiveLayout_kind hlayout
    have hlength :=
      (SerializedVectorPageCursor.validatePrimitiveLayout_length rootCodec hlayout).1
    cases dimensionsProduct "serialized fixed-array dimensions are invalid"
        layout.arrayDimensions 1 with
    | error reason => rfl
    | ok product =>
      dsimp only
      refine mapError_check _ fun _ => mapError_check _ fun _ => mapError_check _ fun hsmall => ?_
      simp only [Bool.or_eq_true, Bool.and_eq_true, decide_eq_true_eq, not_or, not_and, gt_iff_lt,
        Nat.not_lt, ne_eq] at hsmall
      rw [wrap64_of_le (mul_le_of_le_div hsmall.1),
        wrap64_of_le ((Nat.le_div_iff_mul_le hlength).mp hsmall.2)]
      refine mapError_check _ fun hbytes => ?_
      simp only [Bool.or_eq_true, decide_eq_true_eq, not_or, gt_iff_lt, Nat.not_lt] at hbytes
      rw [wrap64_of_le ((Nat.le_div_iff_mul_le (Nat.pos_of_ne_zero hpositive)).mp hbytes.1)]
      refine mapError_check _ fun hrange => ?_
      simp only [Bool.or_eq_true, decide_eq_true_eq, not_or, gt_iff_lt, Nat.not_lt] at hrange
      rw [wrap64_of_le (by omega)]
      refine decodeValuesAt_eq hsize hwidth hpositive _ ?_
      rw [SerializedVectorPageCursor.positions_eq layout hlength]
      intro position hposition
      obtain ⟨flat, hflat, rfl⟩ := List.mem_map.mp hposition
      have hflat : flat < count * layout.fixedArrayLength := List.mem_range.mp hflat
      have hlast := Nat.mul_le_mul_right layout.valueBytes (Nat.succ_le_of_lt hflat)
      rw [Nat.succ_mul] at hlast
      rw [SerializedVectorPageCursor.position, Nat.div_add_mod']
      omega

/-- The frame's number with index `k`. -/
def frameWord (bytes : List UInt8) (k : Nat) : Nat := ofBigEndian ((bytes.drop (4 * k)).take 4)

theorem readBE_eq (bytes : List UInt8) (offset width : Nat) :
    (CheckedByteCursor.mk bytes offset).readBE width =
      if width > bytes.length - offset then none
      else some (ofBigEndian ((bytes.drop offset).take width), ⟨bytes, offset + width⟩) := by
  unfold CheckedByteCursor.readBE CheckedByteCursor.take CheckedByteCursor.remaining
  split_ifs <;> rfl

theorem readHeader_eq (bytes : List UInt8) :
    readHeader bytes =
      if bytes.length < 12 then none
      else some (frameWord bytes 0, frameWord bytes 1, frameWord bytes 2, ⟨bytes, 12⟩) := by
  unfold readHeader
  by_cases hshort : bytes.length < 12
  · rw [if_pos hshort]
    simp only [readBE_eq]
    split_ifs with h0
    · rfl
    simp only [Option.bind_some, readBE_eq]
    split_ifs with h1
    · rfl
    simp only [Option.bind_some, readBE_eq]
    rw [if_pos (by omega)]
    rfl
  · rw [if_neg hshort]
    simp only [readBE_eq]
    rw [if_neg (by omega)]
    simp only [Option.bind_some, readBE_eq]
    rw [if_neg (by omega)]
    simp only [Option.bind_some, readBE_eq]
    rw [if_neg (by omega)]
    rfl

/-- The decoder of an entry: the checks of the frame, then the payload. -/
theorem decodeVectorEntry_cases (bytes : List UInt8) (layout : SerializedEntryLayout)
    (maxValuesPerEntry observed : Nat) :
    (∃ reason, (decodeVectorEntry bytes layout maxValuesPerEntry observed).1 =
      .error (.rejected reason)) ∨
    (12 ≤ bytes.length ∧ frameWord bytes 0 % byteCountMask + 4 = bytes.length ∧
      (decodeVectorEntry bytes layout maxValuesPerEntry observed).1 =
        decodeVectorPayload64 bytes 12 (frameWord bytes 2) layout maxValuesPerEntry) := by
  unfold decodeVectorEntry
  rw [readHeader_eq]
  by_cases hshort : bytes.length < 12
  · rw [if_pos hshort]
    exact .inl ⟨_, rfl⟩
  · rw [if_neg hshort]
    dsimp only
    by_cases hmarker : (!hasByteCount (frameWord bytes 0)) = true
    · rw [if_pos hmarker]
      exact .inl ⟨_, rfl⟩
    · rw [if_neg hmarker]
      by_cases hdeclared : frameWord bytes 0 % byteCountMask + 4 ≠ bytes.length
      · rw [if_pos hdeclared]
        exact .inl ⟨_, rfl⟩
      · rw [if_neg hdeclared]
        split_ifs
        · exact .inl ⟨_, rfl⟩
        · exact .inl ⟨_, rfl⟩
        · exact .inr ⟨by omega, not_not.mp hdeclared, rfl⟩
        · exact .inl ⟨_, rfl⟩
        · exact .inr ⟨by omega, not_not.mp hdeclared, rfl⟩

/-- An entry whose frame is in order is decoded from its payload on. -/
theorem decodeVectorEntry_framed {bytes : List UInt8} (hlong : 12 ≤ bytes.length)
    (hmarker : hasByteCount (frameWord bytes 0) = true)
    (hdeclared : frameWord bytes 0 % byteCountMask + 4 = bytes.length)
    (hheader : frameWord bytes 1 ≠ 0) {observed : Nat}
    (hobserved : observed = 0 ∨ observed = frameWord bytes 1) (layout : SerializedEntryLayout)
    (maxValuesPerEntry : Nat) :
    decodeVectorEntry bytes layout maxValuesPerEntry observed =
      (decodeVectorPayload64 bytes 12 (frameWord bytes 2) layout maxValuesPerEntry,
        frameWord bytes 1) := by
  unfold decodeVectorEntry
  rw [readHeader_eq, if_neg (by omega)]
  dsimp only
  rw [hmarker, Bool.not_true, if_neg (by simp), if_neg (not_not.mpr hdeclared), if_neg hheader]
  rcases hobserved with rfl | rfl
  · rw [if_pos rfl, if_neg (not_not.mpr rfl)]
  · rw [if_neg hheader, if_neg (not_not.mpr rfl)]

/-- **The decoder stays in the entry.**  For all bytes and every layout no byte outside the
    entry is read, and an accepted entry has the declared size and room for the columns. -/
theorem decodeVectorEntry_inside {bytes : List UInt8} (hsize : bytes.length ≤ uint64Max)
    (layout : SerializedEntryLayout) (maxValuesPerEntry observed : Nat) :
    (∀ position, (decodeVectorEntry bytes layout maxValuesPerEntry observed).1 ≠
      .error (.outside position)) ∧
    ∀ result, (decodeVectorEntry bytes layout maxValuesPerEntry observed).1 = .ok result →
      frameWord bytes 0 % byteCountMask + 4 = bytes.length ∧
      12 + frameWord bytes 2 * layout.bytesBeforeValuePerElement +
        frameWord bytes 2 * layout.fixedArrayLength * layout.valueBytes ≤ bytes.length := by
  have hpayload := decodeVectorPayload64_eq hsize 12 (frameWord bytes 2) layout maxValuesPerEntry
  rcases decodeVectorEntry_cases bytes layout maxValuesPerEntry observed with
    ⟨reason, hreason⟩ | ⟨hlong, hdeclared, hdecode⟩
  · rw [hreason]
    refine ⟨fun position h => ?_, fun result h => ?_⟩
    · exact absurd h (by simp)
    · exact absurd h (by simp)
  · rw [hdecode, hpayload]
    cases hplain : decodeVectorPayload rootCodec bytes 12 (frameWord bytes 2) layout
        maxValuesPerEntry with
    | error reason =>
      refine ⟨fun position h => ?_, fun result h => ?_⟩
      · exact absurd h (by simp [Except.mapError])
      · exact absurd h (by simp [Except.mapError])
    | ok result =>
      refine ⟨fun position h => absurd h (by simp [Except.mapError]), fun _ _ => ?_⟩
      obtain ⟨kind, hfits⟩ := fits_of_decodeVectorPayload hplain
      have hprefix' := hfits.prefix_inside
      have hvalues := hfits.values_inside
      have hlong' := hfits.inside
      exact ⟨hdeclared, by omega⟩

/-! ### Coordinates are mixed-radix digits -/

/-- The digits of a number in mixed radix, the most significant first. -/
def mixedRadix : List Nat → Nat → List Nat
  | [], _ => []
  | d :: dimensions, n => n / dimensions.prod % d :: mixedRadix dimensions n

theorem coordinates_eq (dimensions : List Nat) (flat : Nat) :
    coordinates dimensions flat =
      ((mixedRadix dimensions flat).map toInt32, flat / dimensions.prod) := by
  induction dimensions with
  | nil => simp [coordinates, mixedRadix]
  | cons d dimensions ih =>
    rw [coordinates, ih, mixedRadix, List.map_cons, List.prod_cons, Nat.mul_comm d,
      ← Nat.div_div_eq_div_mul]

theorem toInt32_of_le {n : Nat} (h : n ≤ int32Max) : toInt32 n = n := by
  have hbound : n < 2 ^ 31 := Nat.lt_of_le_pred (by decide) h
  have hsize : (Int32.size : Int) = 2 ^ 32 := rfl
  rw [toInt32, Int32.toInt_ofNat', Int.bmod_def, hsize]
  omega

theorem mixedRadix_lt {dimensions : List Nat} (hpositive : ∀ d ∈ dimensions, 0 < d) (flat : Nat) :
    ∀ digit ∈ mixedRadix dimensions flat, ∃ d ∈ dimensions, digit < d := by
  induction dimensions with
  | nil => exact fun digit h => absurd h List.not_mem_nil
  | cons d dimensions ih =>
    intro digit hdigit
    rcases List.mem_cons.mp hdigit with rfl | hdigit
    · exact ⟨d, List.mem_cons_self, Nat.mod_lt _ (hpositive d List.mem_cons_self)⟩
    · obtain ⟨e, he, hlt⟩ := ih (fun e he => hpositive e (List.mem_cons_of_mem _ he)) digit hdigit
      exact ⟨e, List.mem_cons_of_mem _ he, hlt⟩

/-! ### The encoding -/

/-- The value of a member's stored bits. -/
def memberValue (kind : SerializedPrimitiveKind) (bits : Nat) : RootPrimitiveValue :=
  (primitiveOfBits bits kind).getD (.unsigned 0)

theorem primitiveOfBits_eq {kind : SerializedPrimitiveKind} (h : kind ≠ .unknown) (bits : Nat) :
    primitiveOfBits bits kind = some (memberValue kind bits) := by
  cases kind
  case unknown => exact absurd rfl h
  all_goals rfl

/-- The indices of a member's value: its element and the coordinates in the element's array. -/
def memberIndices (layout : SerializedEntryLayout) (element arrayIndex : Nat) : List Int :=
  (element : Int) ::
    if layout.fixedArrayLength > 1 then
      (if layout.arrayDimensions.isEmpty then [arrayIndex]
        else mixedRadix layout.arrayDimensions arrayIndex).map Int.ofNat
    else []

/-- A layout of a fixed member with values of a kind. -/
structure SerializedEntryLayout.Valid (layout : SerializedEntryLayout)
    (kind : SerializedPrimitiveKind) : Prop where
  kind_known : kind ≠ .unknown
  kind_eq : layout.primitiveKind = kind ∨
    layout.primitiveKind = .unknown ∧ classifySerializedPrimitive layout.valueType = kind
  width_eq : layout.valueBytes = primitiveWidth kind
  length_pos : 0 < layout.fixedArrayLength
  length_le : layout.fixedArrayLength ≤ uint64Max
  dimensions_small : ∀ d ∈ layout.arrayDimensions, 0 < d ∧ d ≤ int32Max
  dimensions_prod : layout.arrayDimensions.isEmpty = false →
    layout.arrayDimensions.prod = layout.fixedArrayLength
  depth_eq : layout.indexDepth = 1 + arrayRank layout

/-- The contents of an entry: the member-wise header, the columns before the member's, the
    member's stored bits in element order, and what follows. -/
structure VectorEntry where
  layout : SerializedEntryLayout
  kind : SerializedPrimitiveKind
  header : Nat
  count : Nat
  preceding : List UInt8
  members : List Nat
  trailing : List UInt8

namespace VectorEntry

variable (entry : VectorEntry)

def body : List UInt8 :=
  toBigEndian 4 entry.header ++ (toBigEndian 4 entry.count ++ (entry.preceding ++
    (entry.members.flatMap (toBigEndian (primitiveWidth entry.kind)) ++ entry.trailing)))

/-- The bytes of the entry: the byte count with its marker, and the body it counts. -/
def encode : List UInt8 :=
  toBigEndian 4 (byteCountMask ||| entry.body.length) ++ entry.body

structure WellFormed : Prop where
  layout_valid : entry.layout.Valid entry.kind
  header_pos : entry.header ≠ 0
  header_lt : entry.header < 2 ^ 32
  preceding_length :
    entry.preceding.length = entry.count * entry.layout.bytesBeforeValuePerElement
  members_length : entry.members.length = entry.count * entry.layout.fixedArrayLength
  members_fit : ∀ bits ∈ entry.members, bits < 256 ^ primitiveWidth entry.kind
  indices_fit : entry.count * entry.layout.fixedArrayLength * entry.layout.indexDepth ≤ uint64Max

def values : List RootPrimitiveValue := entry.members.map (memberValue entry.kind)

def indices : List Int :=
  (positions entry.layout entry.count).flatMap fun (element, arrayIndex) =>
    memberIndices entry.layout element arrayIndex

end VectorEntry

theorem length_flatMap_toBigEndian (width : Nat) (members : List Nat) :
    (members.flatMap (toBigEndian width)).length = members.length * width := by
  induction members with
  | nil => simp
  | cons bits members ih =>
    rw [List.flatMap_cons, List.length_append, length_toBigEndian, ih, List.length_cons,
      Nat.succ_mul, Nat.add_comm]

theorem length_body (entry : VectorEntry) :
    entry.body.length = 8 + entry.preceding.length +
      entry.members.length * primitiveWidth entry.kind + entry.trailing.length := by
  simp only [VectorEntry.body, List.length_append, length_toBigEndian,
    length_flatMap_toBigEndian]
  omega

/-- A valid layout passes the checks of the decoder. -/
theorem SerializedEntryLayout.Valid.validate {layout : SerializedEntryLayout}
    {kind : SerializedPrimitiveKind} (h : layout.Valid kind) :
    validatePrimitiveLayout rootCodec layout (1 + arrayRank layout) = .ok kind := by
  have hfound : (if layout.primitiveKind = .unknown then rootCodec.classify layout.valueType
      else layout.primitiveKind) = kind := by
    rcases h.kind_eq with hkind | ⟨hunknown, hkind⟩
    · rw [hkind, if_neg h.kind_known]
    · rw [if_pos hunknown, rootCodec_classify, hkind]
  have hwidth : layout.valueBytes ≠ 0 := by
    rw [h.width_eq]
    have hknown := h.kind_known
    cases kind
    case unknown => exact absurd rfl hknown
    all_goals decide
  have hdepth := h.depth_eq
  unfold validatePrimitiveLayout
  rw [if_neg (by simp [hwidth, Nat.ne_of_gt h.length_pos, hdepth])]
  dsimp only
  rw [hfound, if_neg (by simp [h.kind_known, h.width_eq]), if_neg (by simp [hdepth])]

theorem dimensionsProduct_of_small (message : String) {dimensions : List Nat}
    (hsmall : ∀ d ∈ dimensions, 0 < d ∧ d ≤ int32Max) (start : Nat)
    (hprod : start * dimensions.prod ≤ uint64Max) :
    dimensionsProduct message dimensions start = .ok (start * dimensions.prod) := by
  induction dimensions generalizing start with
  | nil => simp [dimensionsProduct]
  | cons d dimensions ih =>
    obtain ⟨hpos, hle⟩ := hsmall d List.mem_cons_self
    have hrest : ∀ e ∈ dimensions, 0 < e ∧ e ≤ int32Max :=
      fun e he => hsmall e (List.mem_cons_of_mem _ he)
    have hone : 0 < dimensions.prod :=
      List.prod_pos fun e he => (hrest e he).1
    rw [List.prod_cons, ← Nat.mul_assoc] at hprod ⊢
    have hstep : start * d ≤ uint64Max := (Nat.le_mul_of_pos_right _ hone).trans hprod
    have hfits : start ≤ uint64Max / d := (Nat.le_div_iff_mul_le hpos).mpr hstep
    rw [dimensionsProduct, if_neg, ih hrest _ hprod]
    simp only [Bool.or_eq_true, decide_eq_true_eq, not_or, gt_iff_lt, Nat.not_lt]
    exact ⟨⟨Nat.ne_of_gt hpos, hle⟩, hfits⟩

/-! ### Decoding what was encoded -/

section Encoded

variable {entry : VectorEntry} (hentry : entry.WellFormed)
include hentry

theorem VectorEntry.WellFormed.members_bytes :
    entry.members.length ≤ entry.members.length * primitiveWidth entry.kind := by
  have hvalid := hentry.layout_valid.validate
  obtain ⟨-, hwidth, hpositive⟩ := validatePrimitiveLayout_kind hvalid
  exact Nat.le_mul_of_pos_right _ (Nat.pos_of_ne_zero (hwidth ▸ hpositive))

/-- In an entry that the byte count can describe, an element is a valid index. -/
theorem VectorEntry.WellFormed.count_le (hsize : entry.body.length < byteCountMask) :
    entry.count ≤ entry.members.length ∧ entry.members.length < byteCountMask := by
  have hbytes := hentry.members_bytes
  have hcount := Nat.le_mul_of_pos_right entry.count hentry.layout_valid.length_pos
  have hlength := length_body entry
  rw [← hentry.members_length] at hcount
  exact ⟨hcount, by omega⟩

theorem VectorEntry.WellFormed.payloadFits (hsize : entry.body.length < byteCountMask) :
    PayloadFits rootCodec entry.encode 12 entry.count entry.layout entry.kind := by
  have hvalid := hentry.layout_valid
  have hwidth := hvalid.width_eq
  have hlength := length_body entry
  have hbytes := hentry.members_bytes
  obtain ⟨hcount, hmembers⟩ := hentry.count_le hsize
  have hencoded : entry.encode.length = 4 + entry.body.length := by
    rw [VectorEntry.encode, List.length_append, length_toBigEndian]
  have hmask : byteCountMask = 2 ^ 30 := rfl
  have hmax : uint64Max = 2 ^ 64 - 1 := rfl
  have hprecedingLength := hentry.preceding_length
  have hmembersLength := hentry.members_length
  have hpositive : 0 < entry.layout.valueBytes :=
    Nat.pos_of_ne_zero (validatePrimitiveLayout_kind hvalid.validate).2.2
  refine ⟨by omega, hvalid.validate, fun message => ?_, ?_, fun hprefix' => ?_, ?_, ?_, ?_, ?_⟩
  · cases hempty : entry.layout.arrayDimensions.isEmpty with
    | true =>
      rw [List.isEmpty_iff.mp hempty]
      exact ⟨1, rfl, fun h => absurd h (by simp)⟩
    | false =>
      have hprod := hvalid.dimensions_prod hempty
      refine ⟨_, dimensionsProduct_of_small message hvalid.dimensions_small 1 ?_, fun _ => ?_⟩
      · rw [Nat.one_mul, hprod]
        exact hvalid.length_le
      · rw [Nat.one_mul, hprod]
  · have hint : int32Max = 2 ^ 31 - 1 := rfl
    omega
  · rw [Nat.le_div_iff_mul_le (Nat.pos_of_ne_zero hprefix'), ← hprecedingLength]
    omega
  · rw [Nat.le_div_iff_mul_le hvalid.length_pos, ← hmembersLength]
    omega
  · rw [Nat.le_div_iff_mul_le hpositive, ← hmembersLength, hwidth]
    omega
  · rw [← hprecedingLength]
    omega
  · rw [← hprecedingLength, ← hmembersLength, hwidth]
    omega

omit hentry in
/-- Decoding a run of members where their bytes stand. -/
theorem decodeValues_encoded {layout : SerializedEntryLayout} {kind : SerializedPrimitiveKind}
    (hknown : kind ≠ .unknown) (hwidth : layout.valueBytes = primitiveWidth kind)
    (projected trailing : List UInt8) (members : List Nat) :
    ∀ flat, projected.drop (flat * layout.valueBytes) =
        members.flatMap (toBigEndian (primitiveWidth kind)) ++ trailing →
      (∀ bits ∈ members, bits < 256 ^ primitiveWidth kind) →
      decodeValues rootCodec layout kind projected
          ((List.range' flat members.length).map
            (SerializedVectorPageCursor.position layout.fixedArrayLength)) =
        .ok (members.map (memberValue kind),
          ((List.range' flat members.length).map
            (SerializedVectorPageCursor.position layout.fixedArrayLength)).flatMap
              fun (element, arrayIndex) => valueIndices layout element arrayIndex) := by
  induction members with
  | nil => exact fun _ _ _ => rfl
  | cons bits members ih =>
    intro flat hbytes hfit
    have hbits := hfit bits List.mem_cons_self
    have hrest : projected.drop ((flat + 1) * layout.valueBytes) =
        members.flatMap (toBigEndian (primitiveWidth kind)) ++ trailing := by
      rw [Nat.succ_mul, ← List.drop_drop, hbytes, List.flatMap_cons, List.append_assoc, hwidth,
        List.drop_left' (length_toBigEndian _ _)]
    have hvalue : decodePrimitive (projected.drop (flat * layout.valueBytes)) kind =
        some (memberValue kind bits) := by
      rw [hbytes, List.flatMap_cons, List.append_assoc, decodePrimitive_encoded hbits,
        primitiveOfBits_eq hknown]
    rw [List.length_cons, List.range'_succ, List.map_cons, decodeValues,
      SerializedVectorPageCursor.position, Nat.div_add_mod']
    simp only [rootCodec_decodePrimitive, hvalue]
    rw [ih (flat + 1) hrest fun bits hmem => hfit bits (List.mem_cons_of_mem _ hmem)]
    simp [bind, Except.bind]

omit hentry in
theorem frameWord_frame (bytes : List UInt8) (byteCount header count : Nat) {rest : List UInt8}
    (hbytes : bytes = toBigEndian 4 byteCount ++ (toBigEndian 4 header ++ (toBigEndian 4 count ++
      rest))) (hbyteCount : byteCount < 2 ^ 32) (hheader : header < 2 ^ 32)
    (hcount : count < 2 ^ 32) :
    frameWord bytes 0 = byteCount ∧ frameWord bytes 1 = header ∧ frameWord bytes 2 = count ∧
      bytes.drop 12 = rest := by
  have h4 : bytes.drop 4 = toBigEndian 4 header ++ (toBigEndian 4 count ++ rest) := by
    rw [hbytes, List.drop_left' (length_toBigEndian _ _)]
  have h8 : bytes.drop 8 = toBigEndian 4 count ++ rest := by
    rw [show 8 = 4 + 4 from rfl, ← List.drop_drop, h4, List.drop_left' (length_toBigEndian _ _)]
  refine ⟨?_, ?_, ?_, ?_⟩
  · rw [frameWord, Nat.mul_zero, List.drop_zero, hbytes, ofBigEndian_take_append hbyteCount]
  · rw [frameWord, Nat.mul_one, h4, ofBigEndian_take_append hheader]
  · rw [frameWord, h8, ofBigEndian_take_append hcount]
  · rw [show 12 = 8 + 4 from rfl, ← List.drop_drop, h8,
      List.drop_left' (length_toBigEndian _ _)]

/-- The indices the decoder casts to 32 bits are those of the members. -/
theorem VectorEntry.WellFormed.indices_eq (hsize : entry.body.length < byteCountMask) :
    ((positions entry.layout entry.count).flatMap fun (element, arrayIndex) =>
      valueIndices entry.layout element arrayIndex) = entry.indices := by
  obtain ⟨hcount, hmembers⟩ := hentry.count_le hsize
  have hvalid := hentry.layout_valid
  refine List.flatMap_congr fun position hposition => ?_
  obtain ⟨element, helement, hmem⟩ := List.mem_flatMap.mp hposition
  obtain ⟨arrayIndex, harray, rfl⟩ := List.mem_map.mp hmem
  have helement : element < entry.count := List.mem_range.mp helement
  have harray : arrayIndex < entry.layout.fixedArrayLength := List.mem_range.mp harray
  have hmax : int32Max = 2 ^ 31 - 1 := rfl
  have hmask : byteCountMask = 2 ^ 30 := rfl
  have hlength : entry.layout.fixedArrayLength ≤ entry.members.length := by
    rw [hentry.members_length]
    exact Nat.le_mul_of_pos_left _ (by omega)
  have hcoordinates : arrayCoordinates arrayIndex entry.layout.arrayDimensions =
      (if entry.layout.arrayDimensions.isEmpty then [arrayIndex]
        else mixedRadix entry.layout.arrayDimensions arrayIndex).map Int.ofNat := by
    unfold arrayCoordinates
    split_ifs with hempty
    · rw [toInt32_of_le (by omega)]
      rfl
    · rw [coordinates_eq]
      refine List.map_congr_left fun digit hdigit => ?_
      obtain ⟨d, hd, hlt⟩ :=
        mixedRadix_lt (fun d hd => (hvalid.dimensions_small d hd).1) _ digit hdigit
      have hle := (hvalid.dimensions_small d hd).2
      exact toInt32_of_le (by omega)
  dsimp only
  rw [valueIndices, memberIndices, hcoordinates, toInt32_of_le (by omega)]

/-- **The decoder inverts the encoding.**  An entry whose size the 30-bit byte count can hold is
    decoded to the values of its members, in element order, with their indices. -/
theorem VectorEntry.WellFormed.decode_encode (hsize : entry.body.length < byteCountMask)
    {maxValuesPerEntry : Nat}
    (hlimit : entry.count * entry.layout.fixedArrayLength ≤ maxValuesPerEntry) {observed : Nat}
    (hobserved : observed = 0 ∨ observed = entry.header) :
    decodeVectorEntry entry.encode entry.layout maxValuesPerEntry observed =
      (.ok (entry.values, entry.indices), entry.header) := by
  have hvalid := hentry.layout_valid
  have hlength := length_body entry
  have hmask : byteCountMask = 2 ^ 30 := rfl
  obtain ⟨hcount, hmembers⟩ := hentry.count_le hsize
  have hbyteCount : byteCountMask ||| entry.body.length = byteCountMask + entry.body.length := by
    have h := Nat.two_pow_add_eq_or_of_lt hsize 1
    rwa [Nat.mul_one, eq_comm] at h
  have hencoded : entry.encode.length = 4 + entry.body.length := by
    rw [VectorEntry.encode, List.length_append, length_toBigEndian]
  obtain ⟨hword0, hword1, hword2, hdrop⟩ := frameWord_frame entry.encode
    (byteCountMask + entry.body.length) entry.header entry.count
    (by rw [VectorEntry.encode, hbyteCount, VectorEntry.body]) (by omega) hentry.header_lt
    (by omega)
  have hmarker : hasByteCount (frameWord entry.encode 0) = true := by
    rw [hword0, hasByteCount, hmask, decide_eq_true_eq]
    omega
  have hdeclared : frameWord entry.encode 0 % byteCountMask + 4 = entry.encode.length := by
    rw [hword0, hmask, hencoded]
    omega
  rw [decodeVectorEntry_framed (by omega) hmarker hdeclared
    (by rw [hword1]; exact hentry.header_pos) (by rw [hword1]; exact hobserved), hword1, hword2,
    decodeVectorPayload64_eq (by rw [hencoded, show uint64Max = 2 ^ 64 - 1 from rfl]; omega)]
  have hfits := hentry.payloadFits hsize
  have hindices : entry.count * entry.layout.fixedArrayLength ≤
      uint64Max / entry.layout.indexDepth := by
    rw [Nat.le_div_iff_mul_le (by rw [hvalid.depth_eq]; omega)]
    exact hentry.indices_fit
  obtain ⟨result, hresult⟩ := decodeVectorPayload_of_fits hfits hlimit hindices
  obtain ⟨kind, hkind, hvalues⟩ :=
    SerializedVectorPageCursor.decodeVectorPayload_ok rootCodec hresult
  obtain rfl : entry.kind = kind := Except.ok.inj (hvalid.validate.symm.trans hkind)
  have hcolumn : (entry.encode.drop
      (12 + entry.count * entry.layout.bytesBeforeValuePerElement)).drop
        (0 * entry.layout.valueBytes) =
      entry.members.flatMap (toBigEndian (primitiveWidth entry.kind)) ++ entry.trailing := by
    rw [Nat.zero_mul, List.drop_zero, ← List.drop_drop, hdrop, ← hentry.preceding_length,
      List.drop_left' rfl]
  have hdecoded := decodeValues_encoded hvalid.kind_known hvalid.width_eq _ entry.trailing
    entry.members 0 hcolumn hentry.members_fit
  have hpositions := SerializedVectorPageCursor.positions_eq entry.layout hvalid.length_pos
    entry.count
  rw [← hentry.members_length, List.range_eq_range'] at hpositions
  rw [← hpositions, hentry.indices_eq hsize] at hdecoded
  obtain rfl := Except.ok.inj (hvalues.symm.trans hdecoded)
  rw [hresult]
  rfl

end Encoded

/-- **Member-wise entries.**  Decoding inverts the encoding of every entry whose size the 30-bit
    byte count can hold, and on all bytes and layouts the decoder stays in the entry and accepts
    only a frame of the declared size with room for the columns. -/
theorem vector_entries_decode_and_stay_inside :
    (∀ entry : VectorEntry, entry.WellFormed → entry.encode.length ≤ 2 ^ 30 + 3 →
      ∀ maxValuesPerEntry, entry.count * entry.layout.fixedArrayLength ≤ maxValuesPerEntry →
      ∀ observed, (observed = 0 ∨ observed = entry.header) →
        decodeVectorEntry entry.encode entry.layout maxValuesPerEntry observed =
          (.ok (entry.values, entry.indices), entry.header)) ∧
    ∀ bytes : List UInt8, bytes.length ≤ uint64Max →
      ∀ layout maxValuesPerEntry observed,
        (∀ position, (decodeVectorEntry bytes layout maxValuesPerEntry observed).1 ≠
          .error (.outside position)) ∧
        ∀ result, (decodeVectorEntry bytes layout maxValuesPerEntry observed).1 = .ok result →
          frameWord bytes 0 % byteCountMask + 4 = bytes.length ∧
          12 + frameWord bytes 2 * layout.bytesBeforeValuePerElement +
            frameWord bytes 2 * layout.fixedArrayLength * layout.valueBytes ≤ bytes.length := by
  refine ⟨fun entry hentry hlength maxValuesPerEntry hlimit observed hobserved => ?_,
    fun bytes hbytes => decodeVectorEntry_inside hbytes⟩
  have hencoded : entry.encode.length = 4 + entry.body.length := by
    rw [VectorEntry.encode, List.length_append, length_toBigEndian]
  have hsize : entry.body.length < byteCountMask := by
    rw [show byteCountMask = 2 ^ 30 from rfl]
    omega
  exact hentry.decode_encode hsize hlimit hobserved

/-- Two elements with an array of two 16-bit numbers each, and one byte of another column. -/
def pairEntry : VectorEntry where
  layout := pairLayout
  kind := .int16
  header := 7
  count := 2
  preceding := [9, 9]
  members := [5, 65535, 256, 7]
  trailing := [1]

theorem pairEntry_wellFormed : pairEntry.WellFormed where
  layout_valid := {
    kind_known := by decide
    kind_eq := .inl rfl
    width_eq := rfl
    length_pos := by decide
    length_le := by decide
    dimensions_small := by decide
    dimensions_prod := fun _ => rfl
    depth_eq := rfl }
  header_pos := by decide
  header_lt := by decide
  preceding_length := rfl
  members_length := rfl
  members_fit := by decide
  indices_fit := by decide

theorem vector_entries_decode_pairs :
    decodeVectorEntry pairEntry.encode pairLayout 4 0 =
      (.ok ([.signed 5, .signed (-1), .signed 256, .signed 7], [0, 0, 0, 1, 1, 0, 1, 1]), 7) ∧
    (decodeVectorEntry [64, 0, 0, 0] pairLayout 4 0).1 ≠ .error (.outside 4) :=
  ⟨vector_entries_decode_and_stay_inside.1 pairEntry pairEntry_wellFormed (by decide) 4 (by decide)
      0 (.inl rfl),
    (vector_entries_decode_and_stay_inside.2 [64, 0, 0, 0] (by decide) pairLayout 4 0).1 4⟩

/-- An entry of no elements with so many trailing bytes that its size needs the marker bit. -/
def longEntry : VectorEntry where
  layout := { pairLayout with bytesBeforeValuePerElement := 0 }
  kind := .int16
  header := 1
  count := 0
  preceding := []
  members := []
  trailing := List.replicate (2 ^ 30 - 8) 0

theorem longEntry_wellFormed : longEntry.WellFormed where
  layout_valid := {
    kind_known := by decide
    kind_eq := .inl rfl
    width_eq := rfl
    length_pos := by decide
    length_le := by decide
    dimensions_small := by decide
    dimensions_prod := fun _ => rfl
    depth_eq := rfl }
  header_pos := by decide
  header_lt := by decide
  preceding_length := rfl
  members_length := rfl
  members_fit := fun _ h => absurd h List.not_mem_nil
  indices_fit := by decide

/-- The byte count of an entry of `2^30 + 4` bytes has lost its value to the marker: the entry is
    rejected, though it is below the reader's own bound. -/
theorem decodeVectorEntry_rejects_long :
    longEntry.WellFormed ∧ longEntry.encode.length ≤ 2 ^ 31 - 1 ∧
      longEntry.count * longEntry.layout.fixedArrayLength ≤ 0 ∧
      ∃ reason, (decodeVectorEntry longEntry.encode longEntry.layout 0 0).1 =
        .error (.rejected reason) := by
  have hbody : longEntry.body.length = 2 ^ 30 := by
    have htrailing : longEntry.trailing.length = 2 ^ 30 - 8 := List.length_replicate
    have hpreceding : longEntry.preceding.length = 0 := rfl
    have hmembers : longEntry.members.length = 0 := rfl
    rw [length_body, htrailing, hpreceding, hmembers, Nat.zero_mul]
    omega
  have hencoded : longEntry.encode.length = 4 + longEntry.body.length := by
    rw [VectorEntry.encode, List.length_append, length_toBigEndian]
  have hmask : byteCountMask ||| 2 ^ 30 = byteCountMask := Nat.or_self byteCountMask
  have hbyteCount : byteCountMask < 2 ^ 32 := Nat.pow_lt_pow_right (by omega) (by omega)
  obtain ⟨hword0, -, -, -⟩ := frameWord_frame longEntry.encode byteCountMask longEntry.header
    longEntry.count (by rw [VectorEntry.encode, hbody, hmask, VectorEntry.body]) hbyteCount
    longEntry_wellFormed.header_lt (Nat.two_pow_pos 32)
  refine ⟨longEntry_wellFormed, by omega, Nat.le_of_eq (Nat.zero_mul _), ?_⟩
  rcases decodeVectorEntry_cases longEntry.encode longEntry.layout 0 0 with
    hrejected | ⟨-, hdeclared, -⟩
  · exact hrejected
  · rw [hword0, Nat.mod_self] at hdeclared
    omega

end RootLake.Serialized

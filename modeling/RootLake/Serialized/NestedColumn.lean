import RootLake.Serialized.VectorEntry

/-!
# Columns of nested primitive vectors

A member that is a vector of primitives has a column of its own in a member-wise entry: a
frame with a version, and for each outer element a count and that many numbers. The decoder
accepts exactly these frames (`nested_column_grammar`).
-/

namespace RootLake.Serialized

open RootLake.Bytes

/-! ### The decoder -/

/-- What the decoder leaves in its output arguments. -/
structure ColumnOutput where
  accepted : Bool
  values : List RootPrimitiveValue
  indices : List Int
  reason : String
  deriving DecidableEq, Repr

/-- `Fail`. -/
def ColumnOutput.fail (message : String) : ColumnOutput := ⟨false, [], [], message⟩

/-- `ValidateLayout` of the nested decoder. -/
def validateNestedLayout (layout : SerializedEntryLayout) : Except String SerializedPrimitiveKind :=
  let kind :=
    if layout.primitiveKind = .unknown then classifySerializedPrimitive layout.valueType
    else layout.primitiveKind
  if layout.valueBytes = 0 || kind = .unknown || primitiveWidth kind ≠ layout.valueBytes then
    .error "serialized primitive type and width are inconsistent"
  else if layout.fixedArrayLength ≠ 1 || !layout.arrayDimensions.isEmpty ||
      layout.indexDepth ≠ 2 then
    .error "nested serialized vector requires scalar primitives and two indices"
  else .ok kind

/-- The loop over the numbers of one outer element. -/
def decodeInner (valueBytes : Nat) (kind : SerializedPrimitiveKind) (outer : Nat)
    (payload : List UInt8) : List Nat → Except String (List RootPrimitiveValue × List Int)
  | [] => .ok ([], [])
  | inner :: more =>
      match decodePrimitive (payload.drop (inner * valueBytes)) kind with
      | none => .error "unsupported primitive decoder for nested serialized vector"
      | some value =>
          match decodeInner valueBytes kind outer payload more with
          | .error reason => .error reason
          | .ok (values, indices) =>
              .ok (value :: values, toInt32 outer :: toInt32 inner :: indices)

/-- The loop over the outer elements, of which `remaining` are left. -/
def decodeOuter (valueBytes : Nat) (kind : SerializedPrimitiveKind) (maxValuesPerEntry : Nat) :
    Nat → Nat → Nat → CheckedByteCursor →
      Except String (List RootPrimitiveValue × List Int × CheckedByteCursor)
  | 0, _, _, cursor => .ok ([], [], cursor)
  | remaining + 1, outer, totalValues, cursor =>
      match cursor.readBE 4 with
      | none => .error "serialized nested vector length is truncated"
      | some (innerCount, cursor) =>
          if innerCount > int32Max then
            .error "serialized nested vector has a negative element count"
          else if innerCount > maxValuesPerEntry - totalValues ||
              innerCount > uint64Max / valueBytes || totalValues + innerCount > uint64Max then
            .error "serialized nested vector value count exceeds configured safety limit"
          else
            match cursor.take (innerCount * valueBytes) with
            | none => .error "serialized nested vector payload is truncated"
            | some (payload, cursor) =>
                if innerCount > (uint64Max - 2 * totalValues) / 2 then
                  .error "serialized nested vector index size arithmetic overflow"
                else
                  match decodeInner valueBytes kind outer payload (List.range innerCount) with
                  | .error reason => .error reason
                  | .ok (values, indices) =>
                      match decodeOuter valueBytes kind maxValuesPerEntry remaining (outer + 1)
                        (totalValues + innerCount) cursor with
                      | .error reason => .error reason
                      | .ok (more, moreIndices, cursor) =>
                          .ok (values ++ more, indices ++ moreIndices, cursor)

/-- The version and its checksum. -/
def readVersion (cursor : CheckedByteCursor) : Except String CheckedByteCursor :=
  match cursor.readBE 2 with
  | none => .error "serialized nested vector column version is truncated"
  | some (version, cursor) =>
      if version ≠ 0 then .ok cursor
      else
        match cursor.take 4 with
        | none => .error "serialized nested vector column checksum is truncated"
        | some (_, cursor) => .ok cursor

/-- The body of a column behind its byte count. -/
def decodeColumnBody (valueBytes : Nat) (kind : SerializedPrimitiveKind)
    (outerCount maxValuesPerEntry : Nat) (body : List UInt8) : ColumnOutput :=
  match readVersion { data := body } with
  | .error reason => .fail reason
  | .ok cursor =>
      match decodeOuter valueBytes kind maxValuesPerEntry outerCount 0 0 cursor with
      | .error reason => .fail reason
      | .ok (values, indices, cursor) =>
          if cursor.remaining ≠ 0 then
            .fail "serialized nested vector column byte-count does not match decoded values"
          else ⟨true, values, indices, ""⟩

/-- `DecodeNestedPrimitiveColumn`. -/
def decodeNestedPrimitiveColumn (bytes : List UInt8) (columnOffset outerCount : Nat)
    (layout : SerializedEntryLayout) (maxValuesPerEntry : Nat) : ColumnOutput :=
  match validateNestedLayout layout with
  | .error reason => .fail reason
  | .ok kind =>
      if columnOffset > bytes.length then
        .fail "serialized nested vector column is shorter than its ROOT header"
      else if outerCount > int32Max || outerCount > maxValuesPerEntry then
        .fail "serialized outer vector count exceeds configured safety limit"
      else
        match (CheckedByteCursor.mk (bytes.drop columnOffset) 0).readBE 4 with
        | none => .fail "serialized nested vector column is shorter than its ROOT header"
        | some (byteCount, _) =>
            let declaredSize := byteCount % byteCountMask + 4
            if !hasByteCount byteCount then
              .fail "serialized nested vector column has no ROOT byte-count marker"
            else if declaredSize < 6 then
              .fail "serialized nested vector column byte-count is shorter than its ROOT header"
            else if declaredSize > bytes.length - columnOffset then
              .fail "serialized nested vector column byte-count exceeds its entry"
            else
              decodeColumnBody layout.valueBytes kind outerCount maxValuesPerEntry
                ((bytes.drop (columnOffset + 4)).take (declaredSize - 4))

/-! ### What a cursor has left -/

namespace CheckedByteCursor

variable {cursor next : CheckedByteCursor}

def rest (cursor : CheckedByteCursor) : List UInt8 := cursor.data.drop cursor.offset

theorem remaining_eq (cursor : CheckedByteCursor) : cursor.remaining = cursor.rest.length := by
  rw [remaining, rest, List.length_drop]

/-- Taking bytes splits what is left. -/
theorem take_some {requested : Nat} {taken : List UInt8}
    (h : cursor.take requested = some (taken, next)) :
    cursor.rest = taken ++ next.rest ∧ taken.length = requested := by
  unfold take at h
  split_ifs at h with henough
  obtain ⟨rfl, rfl⟩ := Prod.mk.inj (Option.some.inj h)
  rw [remaining_eq] at henough
  refine ⟨?_, ?_⟩
  · rw [rest, rest, ← List.drop_drop, List.take_append_drop]
  · rw [← rest, List.length_take]
    omega

theorem take_of_rest {taken after : List UInt8} (h : cursor.rest = taken ++ after) :
    ∃ next, cursor.take taken.length = some (taken, next) ∧ next.rest = after := by
  have henough : ¬ taken.length > cursor.remaining := by
    rw [remaining_eq, h, List.length_append]
    omega
  refine ⟨{ cursor with offset := cursor.offset + taken.length }, ?_, ?_⟩
  · rw [take, if_neg henough, ← rest, h, List.take_left' rfl]
  · rw [rest, ← List.drop_drop, ← rest, h, List.drop_left' rfl]

theorem readBE_some {width value : Nat} (h : cursor.readBE width = some (value, next)) :
    cursor.rest = toBigEndian width value ++ next.rest ∧ value < 256 ^ width := by
  unfold readBE at h
  obtain ⟨⟨taken, after⟩, htake, hvalue⟩ := Option.map_eq_some_iff.mp h
  obtain ⟨rfl, rfl⟩ := Prod.mk.inj hvalue
  obtain ⟨hrest, rfl⟩ := take_some htake
  exact ⟨by rw [toBigEndian_ofBigEndian, hrest], ofBigEndian_lt taken⟩

theorem readBE_of_rest {width value : Nat} {after : List UInt8}
    (h : cursor.rest = toBigEndian width value ++ after) (hvalue : value < 256 ^ width) :
    ∃ next, cursor.readBE width = some (value, next) ∧ next.rest = after := by
  obtain ⟨next, htake, hnext⟩ := take_of_rest h
  rw [length_toBigEndian] at htake
  refine ⟨next, ?_, hnext⟩
  rw [readBE, htake, Option.map_some]
  dsimp only
  rw [ofBigEndian_toBigEndian hvalue]

end CheckedByteCursor

/-! ### The grammar -/

/-- The numbers of the outer elements, each behind its count. -/
def encodeElements (kind : SerializedPrimitiveKind) (elements : List (List Nat)) : List UInt8 :=
  elements.flatMap fun element =>
    toBigEndian 4 element.length ++ element.flatMap (toBigEndian (primitiveWidth kind))

/-- The counts and the stored numbers have their widths. -/
def ElementsFit (kind : SerializedPrimitiveKind) (elements : List (List Nat)) : Prop :=
  ∀ element ∈ elements, element.length < 2 ^ 31 ∧
    ∀ bits ∈ element, bits < 256 ^ primitiveWidth kind

/-- The bytes behind a byte count: a version, its checksum when it is zero, the elements. -/
def ColumnBody (kind : SerializedPrimitiveKind) (elements : List (List Nat))
    (body : List UInt8) : Prop :=
  ∃ version checksum, version < 2 ^ 16 ∧ checksum.length = (if version = 0 then 4 else 0) ∧
    body = toBigEndian 2 version ++ (checksum ++ encodeElements kind elements)

/-- The frame of a column with the given elements stands at an offset of an entry. -/
structure FrameAt (bytes : List UInt8) (columnOffset : Nat) (kind : SerializedPrimitiveKind)
    (elements : List (List Nat)) : Prop where
  fit : ElementsFit kind elements
  framed : ∃ byteCount body after,
    bytes.drop columnOffset = toBigEndian 4 byteCount ++ (body ++ after) ∧
    byteCount < 2 ^ 32 ∧ hasByteCount byteCount = true ∧
    byteCount % byteCountMask = body.length ∧ ColumnBody kind elements body

def elementValues (kind : SerializedPrimitiveKind) (elements : List (List Nat)) :
    List RootPrimitiveValue :=
  elements.flatten.map (memberValue kind)

/-- The indices of the elements from the outer index `outer` on. -/
def elementIndices (outer : Nat) : List (List Nat) → List Int
  | [] => []
  | element :: elements =>
      ((List.range element.length).flatMap fun inner : Nat => [(outer : Int), (inner : Int)]) ++
        elementIndices (outer + 1) elements

/-! ### The loops read the grammar -/

/-- The numbers in bytes that hold `count` of them. -/
theorem exists_members (width count : Nat) (payload : List UInt8)
    (hlength : payload.length = count * width) :
    ∃ members : List Nat, members.length = count ∧ (∀ bits ∈ members, bits < 256 ^ width) ∧
      payload = members.flatMap (toBigEndian width) := by
  induction count generalizing payload with
  | zero =>
    rw [Nat.zero_mul, List.length_eq_zero_iff] at hlength
    exact ⟨[], rfl, fun _ h => absurd h List.not_mem_nil, hlength⟩
  | succ count ih =>
    rw [Nat.succ_mul] at hlength
    obtain ⟨members, hcount, hfit, hrest⟩ := ih (payload.drop width) (by
      rw [List.length_drop]
      omega)
    have htake : (payload.take width).length = width := by
      rw [List.length_take]
      omega
    have hhead := toBigEndian_ofBigEndian (payload.take width)
    have hbound := ofBigEndian_lt (payload.take width)
    rw [htake] at hhead hbound
    refine ⟨ofBigEndian (payload.take width) :: members, by rw [List.length_cons, hcount],
      fun bits hbits => ?_, ?_⟩
    · rcases List.mem_cons.mp hbits with rfl | hbits
      · exact hbound
      · exact hfit bits hbits
    · rw [List.flatMap_cons, hhead, ← hrest, List.take_append_drop]

/-- The inner loop on the bytes of some numbers, from the index `first` on. -/
theorem decodeInner_eq {kind : SerializedPrimitiveKind} (hknown : kind ≠ .unknown)
    (outer : Nat) (houter : outer ≤ int32Max) (payload : List UInt8) (members : List Nat) :
    ∀ first, payload.drop (first * primitiveWidth kind) =
        members.flatMap (toBigEndian (primitiveWidth kind)) →
      (∀ bits ∈ members, bits < 256 ^ primitiveWidth kind) →
      first + members.length ≤ int32Max →
      decodeInner (primitiveWidth kind) kind outer payload (List.range' first members.length) =
        .ok (members.map (memberValue kind), (List.range' first members.length).flatMap
          fun inner : Nat => [(outer : Int), (inner : Int)]) := by
  induction members with
  | nil => exact fun _ _ _ _ => rfl
  | cons bits members ih =>
    intro first hbytes hfit hbound
    rw [List.length_cons] at hbound
    have hrest : payload.drop ((first + 1) * primitiveWidth kind) =
        members.flatMap (toBigEndian (primitiveWidth kind)) := by
      rw [Nat.succ_mul, ← List.drop_drop, hbytes, List.flatMap_cons,
        List.drop_left' (length_toBigEndian _ _)]
    have hvalue : decodePrimitive (payload.drop (first * primitiveWidth kind)) kind =
        some (memberValue kind bits) := by
      rw [hbytes, List.flatMap_cons, decodePrimitive_encoded (hfit bits List.mem_cons_self),
        primitiveOfBits_eq hknown]
    rw [List.length_cons, List.range'_succ, decodeInner, hvalue]
    dsimp only
    rw [ih (first + 1) hrest (fun bits hmem => hfit bits (List.mem_cons_of_mem _ hmem)) (by omega),
      toInt32_of_le houter, toInt32_of_le (by omega)]
    rfl

section Loops

variable {kind : SerializedPrimitiveKind} {maxValuesPerEntry : Nat}

theorem encodeElements_cons (element : List Nat) (elements : List (List Nat)) :
    encodeElements kind (element :: elements) =
      toBigEndian 4 element.length ++ (element.flatMap (toBigEndian (primitiveWidth kind)) ++
        encodeElements kind elements) := by
  rw [encodeElements, List.flatMap_cons, List.append_assoc]
  rfl

theorem elementValues_cons (element : List Nat) (elements : List (List Nat)) :
    elementValues kind (element :: elements) =
      element.map (memberValue kind) ++ elementValues kind elements := by
  rw [elementValues, List.flatten_cons, List.map_append, elementValues]

theorem length_encodeElements (element : List Nat) (elements : List (List Nat)) :
    (encodeElements kind (element :: elements)).length =
      4 + element.length * primitiveWidth kind + (encodeElements kind elements).length := by
  rw [encodeElements_cons, List.length_append, List.length_append, length_toBigEndian,
    length_flatMap_toBigEndian, Nat.add_assoc]

theorem length_le_encodeElements (elements : List (List Nat)) :
    elements.length ≤ (encodeElements kind elements).length := by
  induction elements with
  | nil => exact Nat.zero_le _
  | cons element elements ih =>
    rw [length_encodeElements, List.length_cons]
    omega

/-- What the outer loop accepts is a list of elements, and it gives their values. -/
theorem elements_of_decodeOuter (hknown : kind ≠ .unknown) (remaining : Nat) :
    ∀ {outer total : Nat} {cursor next : CheckedByteCursor} {values : List RootPrimitiveValue}
      {indices : List Int}, outer + remaining ≤ int32Max → total ≤ maxValuesPerEntry →
      decodeOuter (primitiveWidth kind) kind maxValuesPerEntry remaining outer total cursor =
        .ok (values, indices, next) →
      ∃ elements, elements.length = remaining ∧ ElementsFit kind elements ∧
        cursor.rest = encodeElements kind elements ++ next.rest ∧
        total + elements.flatten.length ≤ maxValuesPerEntry ∧
        values = elementValues kind elements ∧ indices = elementIndices outer elements := by
  induction remaining with
  | zero =>
    intro outer total cursor next values indices _ htotal h
    rw [decodeOuter] at h
    obtain ⟨rfl, hpair⟩ := Prod.mk.inj (Except.ok.inj h)
    obtain ⟨rfl, rfl⟩ := Prod.mk.inj hpair
    exact ⟨[], rfl, fun _ hmem => absurd hmem List.not_mem_nil, rfl, htotal, rfl, rfl⟩
  | succ remaining ih =>
    intro outer total cursor next values indices houter htotal h
    rw [decodeOuter] at h
    cases hread : cursor.readBE 4 with
    | none =>
      rw [hread] at h
      exact absurd h (by simp)
    | some read =>
      obtain ⟨innerCount, afterCount⟩ := read
      rw [hread] at h
      dsimp only at h
      obtain ⟨hrest, -⟩ := CheckedByteCursor.readBE_some hread
      obtain ⟨hnegative, h⟩ := of_check h
      obtain ⟨hlimit, h⟩ := of_check h
      simp only [Bool.or_eq_true, decide_eq_true_eq, not_or, gt_iff_lt, Nat.not_lt] at hlimit
      cases htake : afterCount.take (innerCount * primitiveWidth kind) with
      | none =>
        rw [htake] at h
        exact absurd h (by simp)
      | some taken =>
        obtain ⟨payload, afterPayload⟩ := taken
        rw [htake] at h
        dsimp only at h
        obtain ⟨hpayload, hlength⟩ := CheckedByteCursor.take_some htake
        obtain ⟨-, h⟩ := of_check h
        obtain ⟨members, hcount, hfit, rfl⟩ := exists_members _ innerCount payload hlength
        subst hcount
        have hinner := decodeInner_eq hknown outer (by omega) _ members 0
          (by rw [Nat.zero_mul, List.drop_zero]) hfit (by omega)
        rw [List.range_eq_range', hinner] at h
        dsimp only at h
        cases hmore : decodeOuter (primitiveWidth kind) kind maxValuesPerEntry remaining
            (outer + 1) (total + members.length) afterPayload with
        | error reason =>
          rw [hmore] at h
          exact absurd h (by simp)
        | ok result =>
          obtain ⟨more, moreIndices, last⟩ := result
          rw [hmore] at h
          dsimp only at h
          obtain ⟨rfl, hpair⟩ := Prod.mk.inj (Except.ok.inj h)
          obtain ⟨rfl, rfl⟩ := Prod.mk.inj hpair
          obtain ⟨elements, helements, hfits, htail, hsum, rfl, rfl⟩ :=
            ih (by omega) (by omega) hmore
          refine ⟨members :: elements, by rw [List.length_cons, helements], ?_, ?_, ?_, ?_, ?_⟩
          · intro element hmem
            rcases List.mem_cons.mp hmem with rfl | hmem
            · exact ⟨by
                have hmax : int32Max = 2 ^ 31 - 1 := rfl
                omega, hfit⟩
            · exact hfits element hmem
          · rw [hrest, hpayload, htail, encodeElements_cons]
            simp only [List.append_assoc]
          · rw [List.flatten_cons, List.length_append]
            omega
          · rw [elementValues_cons, elementValues]
          · rw [elementIndices, List.range_eq_range']

/-- The outer loop reads a list of elements that is there. -/
theorem decodeOuter_of_elements (hknown : kind ≠ .unknown) (elements : List (List Nat)) :
    ∀ (outer total : Nat) {cursor : CheckedByteCursor} {after : List UInt8},
      outer + elements.length ≤ int32Max → ElementsFit kind elements →
      cursor.rest = encodeElements kind elements ++ after →
      total + elements.flatten.length ≤ maxValuesPerEntry →
      total + (encodeElements kind elements).length ≤ byteCountMask →
      ∃ next, decodeOuter (primitiveWidth kind) kind maxValuesPerEntry elements.length outer total
          cursor = .ok (elementValues kind elements, elementIndices outer elements, next) ∧
        next.rest = after := by
  induction elements with
  | nil => exact fun _ _ _ _ _ _ hrest _ _ => ⟨_, rfl, hrest⟩
  | cons element elements ih =>
    intro outer total cursor after houter hfit hrest hlimit hsize
    obtain ⟨hcount, hbits⟩ := hfit element List.mem_cons_self
    have hwidth : 0 < primitiveWidth kind := by
      cases kind
      case unknown => exact absurd rfl hknown
      all_goals decide
    have hbytes := Nat.le_mul_of_pos_right element.length hwidth
    have hwidthLe := primitiveWidth_le kind
    have hmask : byteCountMask = 2 ^ 30 := rfl
    have hint : int32Max = 2 ^ 31 - 1 := rfl
    have hmax : uint64Max = 2 ^ 64 - 1 := rfl
    rw [length_encodeElements] at hsize
    rw [List.flatten_cons, List.length_append] at hlimit
    rw [List.length_cons] at houter
    rw [encodeElements_cons, List.append_assoc, List.append_assoc] at hrest
    obtain ⟨afterCount, hread, hafterCount⟩ :=
      CheckedByteCursor.readBE_of_rest hrest (by omega)
    obtain ⟨afterPayload, htake, hafterPayload⟩ := CheckedByteCursor.take_of_rest hafterCount
    rw [length_flatMap_toBigEndian] at htake
    obtain ⟨next, hmore, hnext⟩ := ih (outer + 1) (total + element.length)
      (by omega) (fun other hmem => hfit other (List.mem_cons_of_mem _ hmem)) hafterPayload
      (by omega) (by omega)
    have hinner := decodeInner_eq hknown outer (by omega) _ element 0
      (by rw [Nat.zero_mul, List.drop_zero]) hbits (by omega)
    have hmultiple : element.length ≤ uint64Max / primitiveWidth kind := by
      rw [Nat.le_div_iff_mul_le hwidth]
      omega
    refine ⟨next, ?_, hnext⟩
    rw [List.length_cons, decodeOuter, hread]
    dsimp only
    rw [if_neg (by omega), if_neg, htake]
    · dsimp only
      rw [if_neg (by omega), List.range_eq_range', hinner]
      dsimp only
      rw [hmore, elementIndices, elementValues_cons, List.range_eq_range']
    · simp only [Bool.or_eq_true, decide_eq_true_eq, not_or, gt_iff_lt, Nat.not_lt]
      exact ⟨⟨by omega, hmultiple⟩, by omega⟩

end Loops

/-! ### The body of a column -/

section Body

variable {kind : SerializedPrimitiveKind} {maxValuesPerEntry : Nat}

/-- Reading the version takes it and its checksum. -/
theorem readVersion_ok {cursor next : CheckedByteCursor} (h : readVersion cursor = .ok next) :
    ∃ version checksum, version < 2 ^ 16 ∧ checksum.length = (if version = 0 then 4 else 0) ∧
      cursor.rest = toBigEndian 2 version ++ (checksum ++ next.rest) := by
  rw [readVersion] at h
  cases hread : cursor.readBE 2 with
  | none =>
    rw [hread] at h
    exact absurd h (by simp)
  | some read =>
    obtain ⟨version, afterVersion⟩ := read
    rw [hread] at h
    dsimp only at h
    obtain ⟨hrest, hversion⟩ := CheckedByteCursor.readBE_some hread
    by_cases hzero : version = 0
    · rw [if_neg (not_not.mpr hzero)] at h
      cases htake : afterVersion.take 4 with
      | none =>
        rw [htake] at h
        exact absurd h (by simp)
      | some taken =>
        obtain ⟨checksum, afterChecksum⟩ := taken
        rw [htake] at h
        obtain ⟨hchecksum, hlength⟩ := CheckedByteCursor.take_some htake
        refine ⟨version, checksum, hversion, by rw [if_pos hzero, hlength], ?_⟩
        rw [hrest, hchecksum, Except.ok.inj h]
    · rw [if_pos hzero] at h
      refine ⟨version, [], hversion, by rw [if_neg hzero, List.length_nil], ?_⟩
      rw [hrest, Except.ok.inj h, List.nil_append]

theorem readVersion_of_rest {cursor : CheckedByteCursor} {version : Nat}
    {checksum after : List UInt8} (hversion : version < 2 ^ 16)
    (hlength : checksum.length = if version = 0 then 4 else 0)
    (hrest : cursor.rest = toBigEndian 2 version ++ (checksum ++ after)) :
    ∃ next, readVersion cursor = .ok next ∧ next.rest = after := by
  obtain ⟨afterVersion, hread, hafter⟩ := CheckedByteCursor.readBE_of_rest hrest hversion
  rw [readVersion, hread]
  dsimp only
  by_cases hzero : version = 0
  · rw [if_pos hzero] at hlength
    obtain ⟨afterChecksum, htake, hnext⟩ := CheckedByteCursor.take_of_rest hafter
    rw [hlength] at htake
    exact ⟨afterChecksum, by rw [if_neg (not_not.mpr hzero), htake], hnext⟩
  · rw [if_neg hzero, List.length_eq_zero_iff] at hlength
    rw [hlength, List.nil_append] at hafter
    exact ⟨afterVersion, by rw [if_pos hzero], hafter⟩

/-- A body that is accepted has elements, and the output is theirs. -/
theorem columnBody_of_accepted (hknown : kind ≠ .unknown) {outerCount : Nat}
    (houter : outerCount ≤ int32Max) {body : List UInt8}
    (h : (decodeColumnBody (primitiveWidth kind) kind outerCount maxValuesPerEntry body).accepted =
      true) :
    ∃ elements, elements.length = outerCount ∧ ElementsFit kind elements ∧
      ColumnBody kind elements body ∧ elements.flatten.length ≤ maxValuesPerEntry ∧
      decodeColumnBody (primitiveWidth kind) kind outerCount maxValuesPerEntry body =
        ⟨true, elementValues kind elements, elementIndices 0 elements, ""⟩ := by
  rw [decodeColumnBody] at h ⊢
  cases hversion : readVersion { data := body } with
  | error reason =>
    rw [hversion] at h
    exact absurd h Bool.false_ne_true
  | ok cursor =>
    rw [hversion] at h
    dsimp only at h ⊢
    obtain ⟨version, checksum, hsmall, hchecksum, hbody⟩ := readVersion_ok hversion
    cases houterLoop : decodeOuter (primitiveWidth kind) kind maxValuesPerEntry outerCount 0 0
        cursor with
    | error reason =>
      rw [houterLoop] at h
      exact absurd h Bool.false_ne_true
    | ok result =>
      obtain ⟨values, indices, last⟩ := result
      rw [houterLoop] at h
      dsimp only at h ⊢
      obtain ⟨elements, hlength, hfit, hrest, htotal, rfl, rfl⟩ :=
        elements_of_decodeOuter hknown outerCount (by omega) (Nat.zero_le _) houterLoop
      by_cases hend : last.remaining = 0
      · rw [if_neg (not_not.mpr hend)]
        rw [CheckedByteCursor.remaining_eq, List.length_eq_zero_iff] at hend
        refine ⟨elements, hlength, hfit, ⟨version, checksum, hsmall, hchecksum, ?_⟩, by omega, rfl⟩
        rw [hrest, hend, List.append_nil] at hbody
        exact hbody
      · rw [if_pos hend] at h
        exact absurd h Bool.false_ne_true

/-- The body of some elements is accepted. -/
theorem decodeColumnBody_of_columnBody (hknown : kind ≠ .unknown) {elements : List (List Nat)}
    {body : List UInt8} (houter : elements.length ≤ int32Max) (hfit : ElementsFit kind elements)
    (hbody : ColumnBody kind elements body) (hsize : body.length < byteCountMask)
    (htotal : elements.flatten.length ≤ maxValuesPerEntry) :
    decodeColumnBody (primitiveWidth kind) kind elements.length maxValuesPerEntry body =
      ⟨true, elementValues kind elements, elementIndices 0 elements, ""⟩ := by
  obtain ⟨version, checksum, hsmall, hchecksum, rfl⟩ := hbody
  obtain ⟨cursor, hversion, hcursor⟩ := readVersion_of_rest
    hsmall hchecksum
    (show (CheckedByteCursor.mk (toBigEndian 2 version ++ (checksum ++ encodeElements kind elements))
      0).rest = _ from rfl)
  rw [List.length_append, List.length_append] at hsize
  obtain ⟨last, hloop, hlast⟩ := decodeOuter_of_elements hknown elements 0 0 (by omega)
    hfit (by rw [hcursor, List.append_nil])
    (show 0 + elements.flatten.length ≤ maxValuesPerEntry by omega) (by omega)
  have hend : last.remaining = 0 := by rw [CheckedByteCursor.remaining_eq, hlast, List.length_nil]
  rw [decodeColumnBody, hversion]
  dsimp only
  rw [hloop]
  dsimp only
  rw [if_neg (not_not.mpr hend)]

end Body

/-! ### Frames -/

theorem validateNestedLayout_ok {layout : SerializedEntryLayout} {kind : SerializedPrimitiveKind}
    (h : validateNestedLayout layout = .ok kind) :
    kind ≠ .unknown ∧ layout.valueBytes = primitiveWidth kind := by
  rw [validateNestedLayout] at h
  obtain ⟨hkind, h⟩ := of_check h
  obtain ⟨-, h⟩ := of_check h
  simp only [Bool.or_eq_true, decide_eq_true_eq, not_or] at hkind
  obtain ⟨⟨-, hknown⟩, hwidth⟩ := hkind
  rw [Except.ok.inj h] at hknown hwidth
  exact ⟨hknown, (not_not.mp hwidth).symm⟩

section Frames

variable {bytes : List UInt8} {columnOffset outerCount maxValuesPerEntry : Nat}
  {layout : SerializedEntryLayout} {kind : SerializedPrimitiveKind}

/-- The decoder on a layout that passes, with its checks as one list of guards. -/
theorem decodeNestedPrimitiveColumn_eq (hlayout : validateNestedLayout layout = .ok kind) :
    (decodeNestedPrimitiveColumn bytes columnOffset outerCount layout maxValuesPerEntry).accepted =
        true →
      ∃ byteCount after, bytes.drop columnOffset = toBigEndian 4 byteCount ++ after ∧
        byteCount < 2 ^ 32 ∧ outerCount ≤ int32Max ∧ outerCount ≤ maxValuesPerEntry ∧
        hasByteCount byteCount = true ∧ byteCount % byteCountMask ≤ after.length ∧
        decodeNestedPrimitiveColumn bytes columnOffset outerCount layout maxValuesPerEntry =
          decodeColumnBody (primitiveWidth kind) kind outerCount maxValuesPerEntry
            (after.take (byteCount % byteCountMask)) := by
  obtain ⟨-, hwidth⟩ := validateNestedLayout_ok hlayout
  intro h
  rw [decodeNestedPrimitiveColumn, hlayout] at h ⊢
  dsimp only at h ⊢
  have refused {P : Prop} [Decidable P] {message : String} {output : ColumnOutput}
      (h : (if P then ColumnOutput.fail message else output).accepted = true) :
      ¬ P ∧ output.accepted = true := by
    by_cases hP : P
    · rw [if_pos hP] at h
      exact absurd h Bool.false_ne_true
    · rw [if_neg hP] at h
      exact ⟨hP, h⟩
  obtain ⟨hoffset, h⟩ := refused h
  obtain ⟨houter, h⟩ := refused h
  rw [if_neg hoffset, if_neg houter]
  simp only [Bool.or_eq_true, decide_eq_true_eq, not_or, gt_iff_lt, Nat.not_lt] at houter
  cases hread : (CheckedByteCursor.mk (bytes.drop columnOffset) 0).readBE 4 with
  | none =>
    rw [hread] at h
    exact absurd h Bool.false_ne_true
  | some read =>
    obtain ⟨byteCount, next⟩ := read
    rw [hread] at h
    dsimp only at h ⊢
    obtain ⟨hrest, hbyteCount⟩ := CheckedByteCursor.readBE_some hread
    obtain ⟨hmarker, h⟩ := refused h
    obtain ⟨hshort, h⟩ := refused h
    obtain ⟨hlong, h⟩ := refused h
    rw [if_neg hmarker, if_neg hshort, if_neg hlong]
    have hrest' : bytes.drop columnOffset = toBigEndian 4 byteCount ++ next.rest := hrest
    have hlength := congrArg List.length hrest'
    rw [List.length_drop, List.length_append, length_toBigEndian] at hlength
    refine ⟨byteCount, next.rest, hrest', hbyteCount, houter.1, houter.2, by simpa using hmarker,
      by omega, ?_⟩
    rw [hwidth, Nat.add_sub_cancel, ← List.drop_drop, hrest',
      List.drop_left' (length_toBigEndian _ _)]

/-- What is accepted is a frame of elements within the limit, and the output is theirs. -/
theorem frameAt_of_accepted (hlayout : validateNestedLayout layout = .ok kind)
    (h : (decodeNestedPrimitiveColumn bytes columnOffset outerCount layout
      maxValuesPerEntry).accepted = true) :
    ∃ elements, FrameAt bytes columnOffset kind elements ∧ elements.length = outerCount ∧
      outerCount ≤ maxValuesPerEntry ∧ elements.flatten.length ≤ maxValuesPerEntry ∧
      decodeNestedPrimitiveColumn bytes columnOffset outerCount layout maxValuesPerEntry =
        ⟨true, elementValues kind elements, elementIndices 0 elements, ""⟩ := by
  obtain ⟨hknown, -⟩ := validateNestedLayout_ok hlayout
  obtain ⟨byteCount, after, hdrop, hbyteCount, hint, hlimit, hmarker, hfits, houtput⟩ :=
    decodeNestedPrimitiveColumn_eq hlayout h
  rw [houtput] at h ⊢
  obtain ⟨elements, hlength, hfit, hbody, htotal, hvalues⟩ := columnBody_of_accepted hknown hint h
  refine ⟨elements, ⟨hfit, byteCount, _, after.drop (byteCount % byteCountMask), ?_, hbyteCount,
    hmarker, ?_, hbody⟩, hlength, hlimit, htotal, hvalues⟩
  · rw [hdrop, List.take_append_drop]
  · rw [List.length_take, Nat.min_eq_left hfits]

/-- A frame of elements within the limit is accepted. -/
theorem FrameAt.decode {elements : List (List Nat)}
    (hlayout : validateNestedLayout layout = .ok kind)
    (hframe : FrameAt bytes columnOffset kind elements) (hlimit : elements.length ≤ maxValuesPerEntry)
    (htotal : elements.flatten.length ≤ maxValuesPerEntry) :
    decodeNestedPrimitiveColumn bytes columnOffset elements.length layout maxValuesPerEntry =
      ⟨true, elementValues kind elements, elementIndices 0 elements, ""⟩ := by
  obtain ⟨hknown, hwidth⟩ := validateNestedLayout_ok hlayout
  obtain ⟨hfit, byteCount, body, after, hdrop, hbyteCount, hmarker, hsize, hbody⟩ := hframe
  have hmask : byteCount % byteCountMask < byteCountMask := Nat.mod_lt _ (by decide)
  have hpow : byteCountMask = 2 ^ 30 := rfl
  have hint : int32Max = 2 ^ 31 - 1 := rfl
  have hlength := congrArg List.length hdrop
  rw [List.length_drop, List.length_append, List.length_append, length_toBigEndian] at hlength
  obtain ⟨hheader, hcounts⟩ : 2 ≤ body.length ∧ elements.length ≤ body.length := by
    obtain ⟨version, checksum, -, -, rfl⟩ := hbody
    rw [List.length_append, List.length_append, length_toBigEndian]
    have hcounts : elements.length ≤ (encodeElements kind elements).length :=
      length_le_encodeElements elements
    omega
  obtain ⟨next, hread, hnext⟩ := CheckedByteCursor.readBE_of_rest
    (show (CheckedByteCursor.mk (bytes.drop columnOffset) 0).rest = _ from hdrop) hbyteCount
  have hpayload : (bytes.drop (columnOffset + 4)).take (byteCount % byteCountMask + 4 - 4) =
      body := by
    rw [← List.drop_drop, hdrop, List.drop_left' (length_toBigEndian _ _), Nat.add_sub_cancel,
      hsize, List.take_left' rfl]
  rw [decodeNestedPrimitiveColumn, hlayout]
  dsimp only
  rw [if_neg (by omega), if_neg (by simp; omega), hread]
  dsimp only
  rw [if_neg (by simp [hmarker]), if_neg (by omega), if_neg (by omega), hpayload, hwidth]
  exact decodeColumnBody_of_columnBody hknown (by omega) hfit hbody (by omega) htotal

end Frames

/-! ### Rejections -/

/-- A rejection has a reason and leaves nothing. -/
def ColumnOutput.Rejects (output : ColumnOutput) : Prop :=
  output.reason ≠ "" ∧ output.values = [] ∧ output.indices = []

theorem ColumnOutput.rejects_fail {message : String} (h : message ≠ "") :
    (ColumnOutput.fail message).Rejects :=
  ⟨h, rfl, rfl⟩

theorem validateNestedLayout_reason {layout : SerializedEntryLayout} {reason : String}
    (h : validateNestedLayout layout = .error reason) : reason ≠ "" := by
  rw [validateNestedLayout] at h
  split_ifs at h <;> cases h <;> decide

theorem readVersion_reason {cursor : CheckedByteCursor} {reason : String}
    (h : readVersion cursor = .error reason) : reason ≠ "" := by
  unfold readVersion at h
  split at h
  · cases h
    decide
  · split_ifs at h
    split at h <;> cases h
    decide

theorem decodeInner_reason {valueBytes outer : Nat} {kind : SerializedPrimitiveKind}
    {payload : List UInt8} {inners : List Nat} {reason : String}
    (h : decodeInner valueBytes kind outer payload inners = .error reason) : reason ≠ "" := by
  induction inners generalizing reason with
  | nil => cases h
  | cons inner inners ih =>
    unfold decodeInner at h
    split at h
    · cases h
      decide
    · split at h
      case h_1 hmore =>
        cases h
        exact ih hmore
      case h_2 => cases h

theorem decodeOuter_reason {valueBytes maxValuesPerEntry remaining outer total : Nat}
    {kind : SerializedPrimitiveKind} {cursor : CheckedByteCursor} {reason : String}
    (h : decodeOuter valueBytes kind maxValuesPerEntry remaining outer total cursor =
      .error reason) : reason ≠ "" := by
  induction remaining generalizing outer total cursor reason with
  | zero => cases h
  | succ remaining ih =>
    unfold decodeOuter at h
    split at h
    · cases h
      decide
    · split at h
      · cases h
        decide
      split at h
      · cases h
        decide
      split at h
      · cases h
        decide
      split at h
      · cases h
        decide
      split at h
      case h_1 hinner =>
        cases h
        exact decodeInner_reason hinner
      case h_2 =>
        split at h
        case h_1 hmore =>
          cases h
          exact ih hmore
        case h_2 => cases h

theorem decodeColumnBody_rejects {valueBytes outerCount maxValuesPerEntry : Nat}
    {kind : SerializedPrimitiveKind} {body : List UInt8}
    (h : (decodeColumnBody valueBytes kind outerCount maxValuesPerEntry body).accepted = false) :
    (decodeColumnBody valueBytes kind outerCount maxValuesPerEntry body).Rejects := by
  unfold decodeColumnBody at h ⊢
  cases hversion : readVersion { data := body } with
  | error reason => exact ColumnOutput.rejects_fail (readVersion_reason hversion)
  | ok cursor =>
    rw [hversion] at h
    dsimp only at h ⊢
    cases hloop : decodeOuter valueBytes kind maxValuesPerEntry outerCount 0 0 cursor with
    | error reason => exact ColumnOutput.rejects_fail (decodeOuter_reason hloop)
    | ok result =>
      rw [hloop] at h
      dsimp only at h ⊢
      split_ifs with hend
      · exact ColumnOutput.rejects_fail (by decide)
      · rw [if_neg hend] at h
        exact absurd h.symm Bool.false_ne_true

theorem decodeNestedPrimitiveColumn_rejects {bytes : List UInt8}
    {columnOffset outerCount maxValuesPerEntry : Nat} {layout : SerializedEntryLayout}
    (h : (decodeNestedPrimitiveColumn bytes columnOffset outerCount layout
      maxValuesPerEntry).accepted = false) :
    (decodeNestedPrimitiveColumn bytes columnOffset outerCount layout
      maxValuesPerEntry).Rejects := by
  unfold decodeNestedPrimitiveColumn at h ⊢
  cases hlayout : validateNestedLayout layout with
  | error reason => exact ColumnOutput.rejects_fail (validateNestedLayout_reason hlayout)
  | ok kind =>
    rw [hlayout] at h
    dsimp only at h ⊢
    split_ifs at h ⊢
    · exact ColumnOutput.rejects_fail (by decide)
    · exact ColumnOutput.rejects_fail (by decide)
    · cases hread : (CheckedByteCursor.mk (bytes.drop columnOffset) 0).readBE 4 with
      | none => exact ColumnOutput.rejects_fail (by decide)
      | some read =>
        rw [hread] at h
        dsimp only at h ⊢
        split_ifs at h ⊢
        · exact ColumnOutput.rejects_fail (by decide)
        · exact ColumnOutput.rejects_fail (by decide)
        · exact ColumnOutput.rejects_fail (by decide)
        · exact decodeColumnBody_rejects h

/-! ### The grammar of columns -/

/-- A column of some elements with its byte count. -/
def encodeColumn (kind : SerializedPrimitiveKind) (version : Nat) (checksum : List UInt8)
    (elements : List (List Nat)) : List UInt8 :=
  let body := toBigEndian 2 version ++ (checksum ++ encodeElements kind elements)
  toBigEndian 4 (byteCountMask + body.length) ++ body

/-- An encoded column stands where it is placed. -/
theorem frameAt_encodeColumn {kind : SerializedPrimitiveKind} {version : Nat}
    {checksum before after : List UInt8} {elements : List (List Nat)}
    (hfit : ElementsFit kind elements) (hversion : version < 2 ^ 16)
    (hchecksum : checksum.length = if version = 0 then 4 else 0)
    (hsize : 2 + checksum.length + (encodeElements kind elements).length < byteCountMask) :
    FrameAt (before ++ (encodeColumn kind version checksum elements ++ after)) before.length kind
      elements := by
  have hmask : byteCountMask = 2 ^ 30 := rfl
  have hbody : (toBigEndian 2 version ++ (checksum ++ encodeElements kind elements)).length =
      2 + checksum.length + (encodeElements kind elements).length := by
    rw [List.length_append, List.length_append, length_toBigEndian, Nat.add_assoc]
  refine ⟨hfit, byteCountMask +
    (toBigEndian 2 version ++ (checksum ++ encodeElements kind elements)).length, _, after,
    ?_, ?_, ?_, ?_, version, checksum, hversion, hchecksum, rfl⟩
  · rw [List.drop_left' rfl, encodeColumn, List.append_assoc]
  · rw [hbody]
    omega
  · rw [hbody, hasByteCount, decide_eq_true_eq]
    rw [hmask] at hsize ⊢
    omega
  · rw [hbody, Nat.add_mod_left, Nat.mod_eq_of_lt hsize]

/-- A column is decoded to its numbers with their outer and inner indices, wherever it stands;
exactly the frames of elements within the limit are accepted; and a rejection has a reason and
leaves no values. -/
theorem nested_column_grammar {layout : SerializedEntryLayout} {kind : SerializedPrimitiveKind}
    (hlayout : validateNestedLayout layout = .ok kind) (maxValuesPerEntry : Nat) :
    (∀ (before after checksum : List UInt8) (version : Nat) (elements : List (List Nat)),
      ElementsFit kind elements → version < 2 ^ 16 →
      checksum.length = (if version = 0 then 4 else 0) →
      2 + checksum.length + (encodeElements kind elements).length < byteCountMask →
      elements.length ≤ maxValuesPerEntry → elements.flatten.length ≤ maxValuesPerEntry →
      decodeNestedPrimitiveColumn
          (before ++ (encodeColumn kind version checksum elements ++ after)) before.length
          elements.length layout maxValuesPerEntry =
        ⟨true, elementValues kind elements, elementIndices 0 elements, ""⟩) ∧
    ∀ (bytes : List UInt8) (columnOffset outerCount : Nat),
      ((decodeNestedPrimitiveColumn bytes columnOffset outerCount layout
          maxValuesPerEntry).accepted = true ↔
        ∃ elements, FrameAt bytes columnOffset kind elements ∧ elements.length = outerCount ∧
          outerCount ≤ maxValuesPerEntry ∧ elements.flatten.length ≤ maxValuesPerEntry) ∧
      ((decodeNestedPrimitiveColumn bytes columnOffset outerCount layout
          maxValuesPerEntry).accepted = false →
        (decodeNestedPrimitiveColumn bytes columnOffset outerCount layout
          maxValuesPerEntry).Rejects) := by
  refine ⟨fun before after checksum version elements hfit hversion hchecksum hsize hlimit htotal =>
      (frameAt_encodeColumn hfit hversion hchecksum hsize).decode hlayout hlimit htotal,
    fun bytes columnOffset outerCount => ⟨⟨fun h => ?_, ?_⟩, decodeNestedPrimitiveColumn_rejects⟩⟩
  · obtain ⟨elements, hframe, hlength, hlimit, htotal, -⟩ := frameAt_of_accepted hlayout h
    exact ⟨elements, hframe, hlength, hlimit, htotal⟩
  · rintro ⟨elements, hframe, rfl, hlimit, htotal⟩
    rw [hframe.decode hlayout hlimit htotal]

/-- A member of two-byte integers, nested in a vector. -/
def nestedShorts : SerializedEntryLayout where
  valueType := "Short_t"
  bytesBeforeValuePerElement := 0
  valueBytes := 2
  indexDepth := 2

/-- Two outer elements, of two numbers and of none, between other bytes of an entry. -/
theorem nested_column_of_shorts :
    decodeNestedPrimitiveColumn
        ([9] ++ (encodeColumn .int16 0 [1, 2, 3, 4] [[5, 65535], []] ++ [8, 8])) 1 2
        nestedShorts 4 =
      ⟨true, [.signed 5, .signed (-1)], [0, 0, 0, 1], ""⟩ :=
  (nested_column_grammar (show validateNestedLayout nestedShorts = .ok .int16 by decide) 4).1 [9]
    [8, 8] [1, 2, 3, 4] 0 [[5, 65535], []] (by unfold ElementsFit; decide) (by decide) (by decide)
    (by decide) (by decide) (by decide)

end RootLake.Serialized

import RootLake.Serialized.NestedLayout

/-!
# Fixed members of nested elements

A vector of objects that are themselves in a vector is streamed member by member: for each
outer element a count, and then one column for each member. The decoder jumps to the column
of the projected member. It agrees with the parse of all columns exactly for the plans whose
member the file stores as the dictionary does, in arrays of several numbers
(`nested_fixed_meets_iff`).
-/

namespace RootLake.Serialized

open RootLake.Bytes

/-! ### The decoder -/

/-- `start`, `byte_count` and the position behind the version. -/
structure ReadVersionResult where
  start : Nat
  byteCount : Nat
  next : Nat
  deriving DecidableEq, Repr

/-- What `TBufferFile` reads at a position for the classes of a plan: the header of a
    collection and the version of its elements, with the position behind it. -/
structure VersionReads where
  readVersion : List UInt8 → Nat → ReadVersionResult
  readVersionForMemberWise : List UInt8 → Nat → Int × Nat
  start_eq : ∀ bytes position, (readVersion bytes position).start = position
  start_le : ∀ bytes position, position ≤ (readVersion bytes position).next
  framed : ∀ (bytes : List UInt8) position byteCount version rest, byteCount < 2 ^ 30 →
    1 < version → version < 2 ^ 15 →
    bytes.drop position =
      toBigEndian 4 (2 ^ 30 + byteCount) ++ (toBigEndian 2 version ++ rest) →
    readVersion bytes position = ⟨position, byteCount, position + 6⟩
  memberWise_le : ∀ bytes position, position ≤ (readVersionForMemberWise bytes position).2
  memberWise_small : ∀ bytes position, (readVersionForMemberWise bytes position).2 ≤ position + 6
  memberWise_local : ∀ (bytes : List UInt8) position,
    (readVersionForMemberWise bytes position).2 ≤ bytes.length → ∀ before after : List UInt8,
    readVersionForMemberWise (before ++ ((bytes.drop position).take
        ((readVersionForMemberWise bytes position).2 - position) ++ after)) before.length =
      ((readVersionForMemberWise bytes position).1,
        before.length + ((readVersionForMemberWise bytes position).2 - position))

/-- Version-specific fixed layout, owned by a worker-local reader. -/
structure SerializedNestedFixedLayoutCache where
  elementVersion : Int := -1
  layout : SerializedEntryLayout
  elementStride : Nat := 0

/-- A run of the decoder: the positions it has read numbers at, and its result. -/
structure Decoded where
  reads : List Nat
  result : Except DecodeFailure (List RootPrimitiveValue × List Int)

namespace Decoded

def rejected (reason : String) : Decoded := ⟨[], .error (.rejected reason)⟩

def empty : Decoded := ⟨[], .ok ([], [])⟩

/-- One run after another; the second knows the values of the first. -/
def andThen (first : Decoded) (next : List RootPrimitiveValue → Decoded) : Decoded :=
  match first.result with
  | .error e => ⟨first.reads, .error e⟩
  | .ok (values, indices) =>
      let more := next values
      ⟨first.reads ++ more.reads,
        more.result.map fun (moreValues, moreIndices) =>
          (values ++ moreValues, indices ++ moreIndices)⟩

end Decoded

section Decoder

variable (bytes : List UInt8) (plan : NestedFixedPlan) (layout : SerializedEntryLayout)
  (kind : SerializedPrimitiveKind) (maxValuesPerEntry : Nat)

/-- `DecodePrimitive` at a position of the entry. -/
def readNestedValue (position : Nat) : Except DecodeFailure RootPrimitiveValue :=
  if position + primitiveWidth kind > bytes.length then .error (.outside position)
  else
    match decodePrimitive (bytes.drop position) kind with
    | none => .error (.rejected "nested fixed member has unsupported primitive encoding")
    | some value => .ok value

/-- The indices pushed behind a value. -/
def nestedIndices (outer inner element : Nat) : Except DecodeFailure (List Int) :=
  if plan.fixedArrayLength = 1 then .ok [toInt32 outer, toInt32 inner]
  else if plan.arrayDimensions.isEmpty then .ok [toInt32 outer, toInt32 inner, toInt32 element]
  else if 0 ∈ plan.arrayDimensions then
    .error (.rejected "nested fixed member has a zero array dimension")
  else
    .ok (toInt32 outer :: toInt32 inner :: (coordinates plan.arrayDimensions element).1)

/-- The loop over the numbers of one array. -/
def appendElements (payloadOffset outer inner : Nat) : List Nat → Decoded
  | [] => .empty
  | element :: elements =>
      let position := payloadOffset + element * layout.valueBytes
      Decoded.andThen
        ⟨[position],
          match readNestedValue bytes kind position with
          | .error e => .error e
          | .ok value =>
              match nestedIndices plan outer inner element with
              | .error e => .error e
              | .ok indices => .ok ([value], indices)⟩
        fun _ => appendElements payloadOffset outer inner elements

/-- `AppendNestedFixedValues`, with `total` values before. -/
def appendNestedFixedValues (frameEnd payloadOffset outer inner total : Nat) : Decoded :=
  if layout.valueBytes = 0 || plan.fixedArrayLength = 0 ||
      plan.fixedArrayLength > maxValuesPerEntry - total ||
      plan.fixedArrayLength > uint64Max / layout.valueBytes || payloadOffset > frameEnd ||
      plan.fixedArrayLength * layout.valueBytes > frameEnd - payloadOffset ||
      outer > int32Max || inner > int32Max then
    .rejected "nested fixed member exceeds framed object bounds or value limits"
  else
    appendElements bytes plan layout kind payloadOffset outer inner
      (List.range plan.fixedArrayLength)

/-- The loop over the inner elements. -/
def appendInner (bodyEnd payloadStart projectedWidth outer : Nat) : List Nat → Nat → Decoded
  | [], _ => .empty
  | inner :: inners, total =>
      (appendNestedFixedValues bytes plan layout kind maxValuesPerEntry bodyEnd
          (payloadStart + inner * projectedWidth) outer inner total).andThen fun values =>
        appendInner bodyEnd payloadStart projectedWidth outer inners (total + values.length)

/-- `ReadInt` as an unsigned number. -/
def readCount (bytes : List UInt8) (position : Nat) : Nat :=
  ofBigEndian ((bytes.drop position).take 4)

/-- The loop over the outer elements, of which `remaining` are left. -/
def decodeNestedOuter (stride frameEnd : Nat) : Nat → Nat → Nat → Nat → Decoded
  | 0, _, position, _ =>
      if position ≠ frameEnd then
        .rejected "nested member-wise array does not consume its declared STL frame"
      else .empty
  | remaining + 1, outer, position, total =>
      if position > frameEnd || frameEnd - position < 4 then
        .rejected "nested member-wise STL count is outside its frame"
      else
        let count := readCount bytes position
        let bodyStart := position + 4
        let bodyEnd := bodyStart + count * stride
        let payloadStart := bodyStart + count * layout.bytesBeforeValuePerElement
        let projectedWidth := plan.fixedArrayLength * layout.valueBytes
        if count > int32Max || count > maxValuesPerEntry / plan.fixedArrayLength ||
            count * plan.fixedArrayLength > maxValuesPerEntry - total then
          .rejected "nested member-wise STL count exceeds configured limits"
        else if bodyStart > frameEnd ||
            (stride ≠ 0 && count > (frameEnd - bodyStart) / stride) then
          .rejected "nested member-wise STL columns exceed their container frame"
        else if count > 0 && projectedWidth > (bodyEnd - payloadStart) / count then
          .rejected "nested member-wise projected column exceeds its container body"
        else
          (appendInner bytes plan layout kind maxValuesPerEntry bodyEnd payloadStart projectedWidth
              outer (List.range count) total).andThen fun values =>
            decodeNestedOuter stride frameEnd remaining (outer + 1) bodyEnd (total + values.length)

end Decoder

/-- The part of `DecodeNestedMemberWise` behind the resolved layout. -/
def decodeNestedColumns (bytes : List UInt8) (plan : NestedFixedPlan)
    (kind : SerializedPrimitiveKind) (maxValuesPerEntry outerCount frameEnd position : Nat)
    (cache : SerializedNestedFixedLayoutCache) : Decoded :=
  let layout := cache.layout
  let stride := cache.elementStride
  if layout.valueBytes = 0 || plan.fixedArrayLength > uint64Max / layout.valueBytes then
    .rejected "nested member-wise projected array size overflows"
  else if layout.bytesBeforeValuePerElement > stride ||
      plan.fixedArrayLength * layout.valueBytes > stride - layout.bytesBeforeValuePerElement then
    .rejected "nested member-wise projected field lies outside the complete element layout"
  else if outerCount > int32Max then
    .rejected "nested member-wise outer count exceeds index limits"
  else
    decodeNestedOuter bytes plan layout kind maxValuesPerEntry stride frameEnd outerCount 0 position 0

/-- The layout of a version, from the cache or resolved anew. -/
def cachedNestedLayout (plan : NestedFixedPlan) (version : Int)
    (cache : SerializedNestedFixedLayoutCache) : Except String SerializedNestedFixedLayoutCache :=
  if cache.elementVersion = version then .ok cache
  else
    match resolveSerializedNestedFixedLayout plan version with
    | .error reason => .error reason
    | .ok layout =>
        match resolveSerializedNestedMemberWiseStride plan version with
        | .error reason => .error reason
        | .ok stride => .ok ⟨version, layout, stride⟩

/-- `DecodeNestedMemberWise`. -/
def decodeNestedMemberWise (reads : VersionReads) (bytes : List UInt8) (plan : NestedFixedPlan)
    (kind : SerializedPrimitiveKind) (maxValuesPerEntry outerCount frameEnd position : Nat)
    (cache : SerializedNestedFixedLayoutCache) : SerializedNestedFixedLayoutCache × Decoded :=
  let version := (reads.readVersionForMemberWise bytes position).1
  if version < 0 then
    (cache, .rejected "nested member-wise STL has an invalid element version")
  else
    match cachedNestedLayout plan version cache with
    | .error reason => (cache, .rejected reason)
    | .ok cache =>
        (cache, decodeNestedColumns bytes plan kind maxValuesPerEntry outerCount frameEnd
          (reads.readVersionForMemberWise bytes position).2 cache)

/-- The frame of the nested column: the position behind its header, and its end. -/
def nestedFrame (reads : VersionReads) (bytes : List UInt8) (position : Nat) :
    Except String (Nat × Nat) :=
  if position > bytes.length || bytes.length - position < 6 then
    .error "nested STL header exceeds the serialized entry"
  else
    let storedVersion := ofBigEndian ((bytes.drop (position + 4)).take 2)
    let memberwise := storedVersion / 2 ^ 14 % 2 = 1
    let stlVersion := if memberwise then storedVersion - 2 ^ 14 else storedVersion
    if ¬ memberwise ∨ stlVersion < 8 then
      .error ("nested STL requires supported member-wise encoding (version " ++
        toString stlVersion ++ ")")
    else
      let header := reads.readVersion bytes position
      let frameEnd := header.start + header.byteCount + 4
      if header.byteCount = 0 || frameEnd > bytes.length || frameEnd < header.next then
        .error "nested STL has inconsistent framed byte count"
      else .ok (header.next, frameEnd)

/-- The primitive of the dictionary, for plans that can be decoded. -/
def nestedFixedKind (plan : NestedFixedPlan) (outerCount : Nat) :
    Except String SerializedPrimitiveKind :=
  let kind := classifySerializedPrimitive plan.valueType
  if !plan.isKind .nestedFixedMember || plan.nestedContainerClass.isNone ||
      plan.nestedElementClass.isNone || plan.valueBytes = 0 || plan.fixedArrayLength = 0 ||
      outerCount > int32Max then
    .error "nested offset projection has invalid class or primitive metadata"
  else if kind = .unknown || primitiveWidth kind ≠ plan.valueBytes then
    .error "nested offset projection uses an unsupported primitive"
  else .ok kind

/-- The last check of `DecodeSerializedNestedFixedColumn`. -/
def checkIndices (plan : NestedFixedPlan) (decoded : Decoded) : Decoded :=
  match decoded.result with
  | .error _ => decoded
  | .ok (values, indices) =>
      if indices.length ≠ values.length * plan.indexDepth then
        { decoded with
          result := .error (.rejected
            "nested offset projection produced inconsistent collection indices") }
      else decoded

/-- `DecodeSerializedNestedFixedColumn`, with the cache it leaves. -/
def decodeSerializedNestedFixedColumn (reads : VersionReads) (bytes : List UInt8)
    (position : Nat) (plan : NestedFixedPlan) (outerCount maxValuesPerEntry : Nat)
    (cache : SerializedNestedFixedLayoutCache) : SerializedNestedFixedLayoutCache × Decoded :=
  match nestedFixedKind plan outerCount with
  | .error reason => (cache, .rejected reason)
  | .ok kind =>
      match nestedFrame reads bytes position with
      | .error reason => (cache, .rejected reason)
      | .ok (payloadPosition, frameEnd) =>
          let run := decodeNestedMemberWise reads bytes plan kind maxValuesPerEntry outerCount
            frameEnd payloadPosition cache
          (run.1, checkIndices plan run.2)

/-! ### Runs of the decoder -/

namespace Decoded

variable {first : Decoded} {next : List RootPrimitiveValue → Decoded}

/-- All numbers are read between two positions. -/
def Within (low high width : Nat) (run : Decoded) : Prop :=
  ∀ read ∈ run.reads, low ≤ read ∧ read + width ≤ high

/-- Every value of a run that succeeds has `depth` indices. -/
def Uniform (depth : Nat) (run : Decoded) : Prop :=
  ∀ {values indices}, run.result = .ok (values, indices) → indices.length = values.length * depth

theorem within_of_reads_nil {run : Decoded} {low high width : Nat} (h : run.reads = []) :
    run.Within low high width :=
  fun _ hmem => absurd (h ▸ hmem) List.not_mem_nil

theorem within_rejected {low high width : Nat} {reason : String} :
    (rejected reason).Within low high width :=
  within_of_reads_nil rfl

theorem Within.andThen {low high width : Nat} (hfirst : first.Within low high width)
    (hnext : ∀ values, (next values).Within low high width) :
    (first.andThen next).Within low high width := by
  intro position hmem
  rw [Decoded.andThen] at hmem
  cases hresult : first.result with
  | error e =>
    rw [hresult] at hmem
    exact hfirst position hmem
  | ok decoded =>
    rw [hresult] at hmem
    rcases List.mem_append.mp hmem with hmem | hmem
    · exact hfirst position hmem
    · exact hnext _ position hmem

/-- A sequence succeeds when both runs do, and gives what they give. -/
theorem andThen_ok {values : List RootPrimitiveValue} {indices : List Int}
    (h : (first.andThen next).result = .ok (values, indices)) :
    ∃ values₁ indices₁ values₂ indices₂, first.result = .ok (values₁, indices₁) ∧
      (next values₁).result = .ok (values₂, indices₂) ∧ values = values₁ ++ values₂ ∧
      indices = indices₁ ++ indices₂ := by
  rw [Decoded.andThen] at h
  cases hresult : first.result with
  | error e =>
    rw [hresult] at h
    exact absurd h (by simp)
  | ok decoded =>
    obtain ⟨values₁, indices₁⟩ := decoded
    rw [hresult] at h
    dsimp only at h
    cases hmore : (next values₁).result with
    | error e =>
      rw [hmore] at h
      exact absurd h (by simp [Except.map])
    | ok more =>
      obtain ⟨values₂, indices₂⟩ := more
      rw [hmore] at h
      obtain ⟨rfl, rfl⟩ := Prod.mk.inj (Except.ok.inj h)
      exact ⟨values₁, indices₁, values₂, indices₂, rfl, hmore, rfl, rfl⟩

theorem andThen_of_ok {values₁ values₂ : List RootPrimitiveValue} {indices₁ indices₂ : List Int}
    (hfirst : first.result = .ok (values₁, indices₁))
    (hnext : (next values₁).result = .ok (values₂, indices₂)) :
    (first.andThen next).result = .ok (values₁ ++ values₂, indices₁ ++ indices₂) := by
  rw [Decoded.andThen, hfirst]
  dsimp only
  rw [hnext, Except.map]

theorem uniform_rejected {depth : Nat} {reason : String} : (rejected reason).Uniform depth :=
  fun h => absurd h (by simp [rejected])

theorem uniform_empty {depth : Nat} : empty.Uniform depth := by
  intro values indices h
  obtain ⟨rfl, rfl⟩ := Prod.mk.inj (Except.ok.inj h)
  rw [List.length_nil, List.length_nil, Nat.zero_mul]

theorem Uniform.andThen {depth : Nat} (hfirst : first.Uniform depth)
    (hnext : ∀ values, (next values).Uniform depth) : (first.andThen next).Uniform depth := by
  intro values indices h
  obtain ⟨values₁, indices₁, values₂, indices₂, h₁, h₂, rfl, rfl⟩ := andThen_ok h
  rw [List.length_append, List.length_append, hfirst h₁, hnext values₁ h₂, Nat.add_mul]

end Decoded

section Loops

variable {bytes : List UInt8} {plan : NestedFixedPlan} {layout : SerializedEntryLayout}
  {kind : SerializedPrimitiveKind} {maxValuesPerEntry : Nat}

/-! ### Every number is read inside the frame -/

theorem appendElements_within {low high payloadOffset outer inner length : Nat}
    (elements : List Nat) (hlow : low ≤ payloadOffset)
    (hfits : payloadOffset + length * layout.valueBytes ≤ high)
    (hwidth : primitiveWidth kind = layout.valueBytes) (hbound : ∀ e ∈ elements, e < length) :
    (appendElements bytes plan layout kind payloadOffset outer inner elements).Within low high
      (primitiveWidth kind) := by
  induction elements with
  | nil => exact Decoded.within_of_reads_nil rfl
  | cons element elements ih =>
    rw [appendElements]
    refine Decoded.Within.andThen ?_ fun _ => ih fun e he => hbound e (List.mem_cons_of_mem _ he)
    intro position hmem
    rw [List.mem_singleton.mp hmem, hwidth]
    have hnext := Nat.mul_le_mul_right layout.valueBytes (hbound element List.mem_cons_self)
    rw [Nat.succ_mul] at hnext
    omega

theorem appendNestedFixedValues_within {low limit high payloadOffset outer inner total : Nat}
    (hlow : low ≤ payloadOffset) (hhigh : limit ≤ high)
    (hwidth : primitiveWidth kind = layout.valueBytes) :
    (appendNestedFixedValues bytes plan layout kind maxValuesPerEntry limit payloadOffset outer
      inner total).Within low high (primitiveWidth kind) := by
  unfold appendNestedFixedValues
  split_ifs with hchecks
  · exact Decoded.within_rejected
  · simp only [Bool.or_eq_true, decide_eq_true_eq, not_or, gt_iff_lt, Nat.not_lt] at hchecks
    obtain ⟨⟨⟨⟨-, hoffset⟩, hfits⟩, -⟩, -⟩ := hchecks
    exact appendElements_within _ hlow (by omega) hwidth fun e he => List.mem_range.mp he

theorem appendInner_within {low limit high payloadStart projectedWidth outer : Nat}
    (inners : List Nat) (hlow : low ≤ payloadStart) (hhigh : limit ≤ high)
    (hwidth : primitiveWidth kind = layout.valueBytes) (total : Nat) :
    (appendInner bytes plan layout kind maxValuesPerEntry limit payloadStart projectedWidth outer
      inners total).Within low high (primitiveWidth kind) := by
  induction inners generalizing total with
  | nil => exact Decoded.within_of_reads_nil rfl
  | cons inner inners ih =>
    rw [appendInner]
    exact Decoded.Within.andThen
      (appendNestedFixedValues_within (hlow.trans (Nat.le_add_right _ _)) hhigh hwidth)
      fun values => ih (total + values.length)

theorem decodeNestedOuter_within {low stride frameEnd : Nat}
    (hwidth : primitiveWidth kind = layout.valueBytes) (remaining : Nat) :
    ∀ outer position total, low ≤ position →
      (decodeNestedOuter bytes plan layout kind maxValuesPerEntry stride frameEnd remaining outer
        position total).Within low frameEnd (primitiveWidth kind) := by
  induction remaining with
  | zero =>
    intro outer position total _
    unfold decodeNestedOuter
    split_ifs <;> exact Decoded.within_of_reads_nil rfl
  | succ remaining ih =>
    intro outer position total hlow
    rw [decodeNestedOuter]
    dsimp only
    split_ifs with hcount hlimit hcolumns hprojected
    · exact Decoded.within_rejected
    · exact Decoded.within_rejected
    · exact Decoded.within_rejected
    · exact Decoded.within_rejected
    · refine Decoded.Within.andThen (appendInner_within _ (by omega) ?_ hwidth total) fun values =>
        ih _ _ _ (by omega)
      simp only [Bool.or_eq_true, Bool.and_eq_true, decide_eq_true_eq, not_or, gt_iff_lt,
        Nat.not_lt, not_and] at hcolumns
      obtain ⟨hbody, hstride⟩ := hcolumns
      by_cases hzero : stride = 0
      · rw [hzero, Nat.mul_zero]
        exact hbody
      · have := Nat.mul_le_of_le_div stride _ _ (hstride (by simpa using hzero))
        omega

/-- Behind the frame nothing is read. -/
theorem decodeNestedOuter_outside {stride frameEnd outer position total : Nat} (remaining : Nat)
    (h : frameEnd < position) :
    (decodeNestedOuter bytes plan layout kind maxValuesPerEntry stride frameEnd remaining outer
      position total).reads = [] := by
  cases remaining with
  | zero => rw [decodeNestedOuter, if_pos (by omega)]; rfl
  | succ remaining => rw [decodeNestedOuter, if_pos (by simp; omega)]; rfl

/-! ### The frame is consumed -/

/-- A frame from a position on holds a count and columns for each outer element, and ends
    behind the last. -/
def Consumed (bytes : List UInt8) (stride frameEnd : Nat) : Nat → Nat → Prop
  | 0, position => position = frameEnd
  | remaining + 1, position =>
      Consumed bytes stride frameEnd remaining
        (position + 4 + readCount bytes position * stride)

theorem consumed_of_ok {stride frameEnd : Nat} (remaining : Nat) :
    ∀ {outer position total : Nat} {values : List RootPrimitiveValue} {indices : List Int},
      (decodeNestedOuter bytes plan layout kind maxValuesPerEntry stride frameEnd remaining outer
        position total).result = .ok (values, indices) →
      Consumed bytes stride frameEnd remaining position := by
  induction remaining with
  | zero =>
    intro outer position total values indices h
    rw [decodeNestedOuter] at h
    split_ifs at h with hend
    · exact absurd h (by simp [Decoded.rejected])
    · exact not_not.mp hend
  | succ remaining ih =>
    intro outer position total values indices h
    rw [decodeNestedOuter] at h
    dsimp only at h
    split_ifs at h with hcount hlimit hcolumns hprojected
    · exact absurd h (by simp [Decoded.rejected])
    · exact absurd h (by simp [Decoded.rejected])
    · exact absurd h (by simp [Decoded.rejected])
    · exact absurd h (by simp [Decoded.rejected])
    · obtain ⟨_, _, _, _, -, hmore, -, -⟩ := Decoded.andThen_ok h
      exact ih hmore

/-! ### Indices of one depth -/

/-- The indices the decoder pushes for a value. -/
def pushedDepth (plan : NestedFixedPlan) : Nat :=
  if plan.fixedArrayLength = 1 then 2
  else if plan.arrayDimensions.isEmpty then 3 else 2 + plan.arrayDimensions.length

theorem length_coordinates (dimensions : List Nat) (flat : Nat) :
    (coordinates dimensions flat).1.length = dimensions.length := by
  induction dimensions generalizing flat with
  | nil => rfl
  | cons d dimensions ih => rw [coordinates, List.length_cons, List.length_cons, ih]

theorem nestedIndices_length {outer inner element : Nat} {indices : List Int}
    (h : nestedIndices plan outer inner element = .ok indices) :
    indices.length = pushedDepth plan := by
  unfold nestedIndices at h
  unfold pushedDepth
  split_ifs at h ⊢ with hone hempty hzero
  · rw [← Except.ok.inj h]
    rfl
  · rw [← Except.ok.inj h]
    rfl
  · rw [← Except.ok.inj h, List.length_cons, List.length_cons, length_coordinates]
    omega

theorem appendElements_uniform {payloadOffset outer inner : Nat} (elements : List Nat) :
    (appendElements bytes plan layout kind payloadOffset outer inner elements).Uniform
      (pushedDepth plan) := by
  induction elements with
  | nil => exact Decoded.uniform_empty
  | cons element elements ih =>
    rw [appendElements]
    refine Decoded.Uniform.andThen (fun {values indices} h => ?_) fun _ => ih
    dsimp only at h
    cases hvalue : readNestedValue bytes kind (payloadOffset + element * layout.valueBytes) with
    | error e =>
      rw [hvalue] at h
      exact absurd h (by simp)
    | ok value =>
      rw [hvalue] at h
      cases hpushed : nestedIndices plan outer inner element with
      | error e =>
        rw [hpushed] at h
        exact absurd h (by simp)
      | ok pushed =>
        rw [hpushed] at h
        obtain ⟨rfl, rfl⟩ := Prod.mk.inj (Except.ok.inj h)
        rw [nestedIndices_length hpushed, List.length_singleton, Nat.one_mul]

theorem appendInner_uniform {limit payloadStart projectedWidth outer : Nat} (inners : List Nat)
    (total : Nat) :
    (appendInner bytes plan layout kind maxValuesPerEntry limit payloadStart projectedWidth outer
      inners total).Uniform (pushedDepth plan) := by
  induction inners generalizing total with
  | nil => exact Decoded.uniform_empty
  | cons inner inners ih =>
    rw [appendInner]
    refine Decoded.Uniform.andThen ?_ fun values => ih (total + values.length)
    unfold appendNestedFixedValues
    split_ifs
    · exact Decoded.uniform_rejected
    · exact appendElements_uniform _

theorem decodeNestedOuter_uniform {stride frameEnd : Nat} (remaining : Nat) :
    ∀ outer position total,
      (decodeNestedOuter bytes plan layout kind maxValuesPerEntry stride frameEnd remaining outer
        position total).Uniform (pushedDepth plan) := by
  induction remaining with
  | zero =>
    intro outer position total
    unfold decodeNestedOuter
    split_ifs
    · exact Decoded.uniform_rejected
    · exact Decoded.uniform_empty
  | succ remaining ih =>
    intro outer position total
    rw [decodeNestedOuter]
    dsimp only
    split_ifs
    · exact Decoded.uniform_rejected
    · exact Decoded.uniform_rejected
    · exact Decoded.uniform_rejected
    · exact Decoded.uniform_rejected
    · exact Decoded.Uniform.andThen (appendInner_uniform _ total) fun values => ih _ _ _

end Loops

/-! ### The whole decoder -/

/-- The cache holds what the resolvers give for its version. -/
def SerializedNestedFixedLayoutCache.Consistent (plan : NestedFixedPlan)
    (cache : SerializedNestedFixedLayoutCache) : Prop :=
  0 ≤ cache.elementVersion →
    Resolves plan cache.elementVersion cache.layout cache.elementStride

section Whole

variable {reads : VersionReads} {bytes : List UInt8} {plan : NestedFixedPlan} {position : Nat}
  {outerCount maxValuesPerEntry : Nat} {cache : SerializedNestedFixedLayoutCache}

/-- The layout in use is the one of the version that is read. -/
theorem cachedNestedLayout_ok {version : Int} {next : SerializedNestedFixedLayoutCache}
    (hconsistent : cache.Consistent plan) (hversion : 0 ≤ version)
    (h : cachedNestedLayout plan version cache = .ok next) :
    Resolves plan version next.layout next.elementStride ∧ next.Consistent plan := by
  unfold cachedNestedLayout at h
  split_ifs at h with hcached
  · rw [← Except.ok.inj h]
    exact ⟨hcached ▸ hconsistent (hcached ▸ hversion), hconsistent⟩
  · cases hlayout : resolveSerializedNestedFixedLayout plan version with
    | error reason =>
      rw [hlayout] at h
      exact absurd h (by simp)
    | ok layout =>
      rw [hlayout] at h
      dsimp only at h
      cases hstride : resolveSerializedNestedMemberWiseStride plan version with
      | error reason =>
        rw [hstride] at h
        exact absurd h (by simp)
      | ok stride =>
        rw [hstride] at h
        rw [← Except.ok.inj h]
        exact ⟨⟨hlayout, hstride⟩, fun _ => ⟨hlayout, hstride⟩⟩

/-- The decoder stops before any number, or it is the loop over the outer elements with the
    layout of the version it has read. -/
theorem decodeSerializedNestedFixedColumn_cases (hconsistent : cache.Consistent plan) :
    let run := decodeSerializedNestedFixedColumn reads bytes position plan outerCount
      maxValuesPerEntry cache
    run.1.Consistent plan ∧
      ((∃ reason, run.2 = .rejected reason) ∨
        ∃ kind next frameEnd version start layout stride,
          nestedFixedKind plan outerCount = .ok kind ∧
          nestedFrame reads bytes position = .ok (next, frameEnd) ∧
          reads.readVersionForMemberWise bytes next = (version, start) ∧
          Resolves plan version layout stride ∧
          run.2 = checkIndices plan (decodeNestedOuter bytes plan layout kind maxValuesPerEntry
            stride frameEnd outerCount 0 start 0)) := by
  unfold decodeSerializedNestedFixedColumn
  cases hkind : nestedFixedKind plan outerCount with
  | error reason => exact ⟨hconsistent, .inl ⟨reason, rfl⟩⟩
  | ok kind =>
    dsimp only
    cases hframe : nestedFrame reads bytes position with
    | error reason => exact ⟨hconsistent, .inl ⟨reason, rfl⟩⟩
    | ok frame =>
      obtain ⟨next, frameEnd⟩ := frame
      dsimp only
      unfold decodeNestedMemberWise
      dsimp only
      split_ifs with hversion
      · exact ⟨hconsistent, .inl ⟨_, rfl⟩⟩
      · cases hlayout : cachedNestedLayout plan (reads.readVersionForMemberWise bytes next).1
            cache with
        | error reason => exact ⟨hconsistent, .inl ⟨reason, rfl⟩⟩
        | ok found =>
          obtain ⟨hresolves, hfound⟩ := cachedNestedLayout_ok hconsistent (by omega) hlayout
          dsimp only
          unfold decodeNestedColumns
          dsimp only
          split_ifs
          · exact ⟨hfound, .inl ⟨_, rfl⟩⟩
          · exact ⟨hfound, .inl ⟨_, rfl⟩⟩
          · exact ⟨hfound, .inl ⟨_, rfl⟩⟩
          · exact ⟨hfound, .inr ⟨kind, next, frameEnd, _, _, _, _, rfl, rfl, rfl, hresolves, rfl⟩⟩

theorem nestedFrame_ok {next frameEnd : Nat}
    (h : nestedFrame reads bytes position = .ok (next, frameEnd)) :
    next = (reads.readVersion bytes position).next ∧
      frameEnd = position + (reads.readVersion bytes position).byteCount + 4 ∧
      frameEnd ≤ bytes.length := by
  rw [nestedFrame] at h
  dsimp only at h
  obtain ⟨-, h⟩ := of_check h
  obtain ⟨-, h⟩ := of_check h
  obtain ⟨hframe, h⟩ := of_check h
  obtain ⟨rfl, rfl⟩ := Prod.mk.inj (Except.ok.inj h)
  simp only [Bool.or_eq_true, decide_eq_true_eq, not_or] at hframe
  rw [reads.start_eq] at hframe ⊢
  exact ⟨rfl, rfl, by omega⟩

theorem nestedFixedKind_ok {kind : SerializedPrimitiveKind}
    (h : nestedFixedKind plan outerCount = .ok kind) :
    kind = classifySerializedPrimitive plan.valueType ∧ kind ≠ .unknown ∧
      primitiveWidth kind = plan.valueBytes ∧ outerCount ≤ int32Max := by
  rw [nestedFixedKind] at h
  generalize classifySerializedPrimitive plan.valueType = planned at h ⊢
  obtain ⟨hclasses, h⟩ := of_check h
  obtain ⟨hknown, h⟩ := of_check h
  simp only [Bool.or_eq_true, decide_eq_true_eq, not_or] at hclasses hknown
  rw [← Except.ok.inj h]
  exact ⟨rfl, hknown.1, not_not.mp hknown.2, by omega⟩

end Whole

theorem checkIndices_reads (plan : NestedFixedPlan) (run : Decoded) :
    (checkIndices plan run).reads = run.reads := by
  unfold checkIndices
  split
  · rfl
  · split_ifs <;> rfl

/-- The last check lets a result through whose indices have the plan's depth. -/
theorem checkIndices_ok {plan : NestedFixedPlan} {run : Decoded}
    {values : List RootPrimitiveValue} {indices : List Int} :
    (checkIndices plan run).result = .ok (values, indices) ↔
      run.result = .ok (values, indices) ∧ indices.length = values.length * plan.indexDepth := by
  unfold checkIndices
  cases hresult : run.result with
  | error e => simp [hresult]
  | ok decoded =>
    obtain ⟨values', indices'⟩ := decoded
    dsimp only
    split_ifs with hlength
    · refine ⟨fun h => absurd h (by simp), fun ⟨h, heq⟩ => ?_⟩
      obtain ⟨rfl, rfl⟩ := Prod.mk.inj (Except.ok.inj h)
      exact absurd heq hlength
    · rw [hresult]
      refine ⟨fun h => ⟨h, ?_⟩, fun h => h.1⟩
      obtain ⟨rfl, rfl⟩ := Prod.mk.inj (Except.ok.inj h)
      exact not_not.mp hlength

end RootLake.Serialized

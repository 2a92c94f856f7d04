import RootLake.Reader.SemanticTypes
import RootLake.Serialized.Plan
import RootLake.Serialized.VectorEntry

/-!
# Layouts of nested fixed members

A fixed member of a nested element is found in the columns of a member-wise vector through
the streamer elements that the file declares for a version of the element's class: the
columns before the member's and the width of a whole element are sums of fixed widths. The
two sums agree about where the member's column is (`exists_split_of_resolved`).
-/

namespace RootLake.Serialized

open RootLake.SemanticTypes

def uint32Max : Nat := 2 ^ 32 - 1

/-- One member or base of a class as its streamer describes it. -/
structure TStreamerElement where
  name : String
  typeName : String
  type : Int
  isBase : Bool := false
  isaPointer : Bool := false
  maxIndex : List Int := []
  deriving DecidableEq, Repr

/-- A class with the streamer elements of its versions. An element that is not a
    `TStreamerElement` is `none`. -/
structure StreamedClass where
  classVersion : Int
  streamerInfo : Int → Option (List (Option TStreamerElement))

/-- A plan with what the projection of a nested fixed member reads. -/
structure NestedFixedPlan extends SerializedReadPlan where
  nestedContainerClass : Option TClass
  nestedElementClass : Option StreamedClass
  nestedMemberName : String
  valueType : String
  valueBytes : Nat
  fixedArrayLength : Nat
  arrayDimensions : List Nat
  indexDepth : Nat

/-! ### Widths -/

/-- `FixedArrayLength`: the length, which is zero for extents it does not take, and the
    dimensions it has read. -/
def fixedArrayLengthFrom : List Int → List Nat → Nat → Nat × List Nat
  | [], dimensions, length => (length, dimensions)
  | extent :: extents, dimensions, length =>
      if extent ≤ 0 || length > uint64Max / extent.toNat then (0, dimensions)
      else
        fixedArrayLengthFrom extents (dimensions ++ [extent.toNat]) (length * extent.toNat)

def fixedArrayLength (element : TStreamerElement) : Nat × List Nat :=
  fixedArrayLengthFrom element.maxIndex [] 1

/-- `FixedPrimitiveWidth`. A text that its type functions throw at is no width either. -/
def fixedPrimitiveWidth (element : TStreamerElement) : Except String Nat :=
  if element.isaPointer then .error "pointer before projected member"
  else
    match streamerPrimitiveType element.type element.typeName with
    | .error e => .error e
    | .ok type =>
        if basicTypeCode element.type = 9 || basicTypeCode element.type = 19 ||
            element.typeName = "Float16_t" || element.typeName = "Double32_t" then
          .error "compressed floating streamer element before projected member"
        else
          match primitiveTypeSize type with
          | .error e => .error e
          | .ok primitive =>
              let length := (fixedArrayLength element).1
              if primitive = 0 || length = 0 || length > uint32Max / primitive then
                .error ("variable-width or unsupported streamer element before projected member: " ++
                  element.name)
              else .ok (primitive * length)

/-- The type a base element names. -/
def baseTypeOf (element : TStreamerElement) : String :=
  let baseType := String.ofList (trimType element.typeName.toList)
  if baseType = "" || baseType = "BASE" then String.ofList (trimType element.name.toList)
  else baseType

/-! ### The two resolvers -/

/-- The loop over the elements before the member. -/
def fixedPrefix (version : Int) (member : String) :
    List (Option TStreamerElement) → Nat → Except String (Nat × TStreamerElement)
  | [], _ =>
      .error ("projected fixed member is absent from serialized element version " ++
        toString version)
  | none :: _, _ => .error "serialized fixed element version has invalid streamer metadata"
  | some element :: elements, prefixWidth =>
      if !element.isBase && member = element.name then .ok (prefixWidth, element)
      else if element.isBase then
        if baseTypeOf element ≠ "TObject" then
          .error ("unsupported base class before versioned fixed member: " ++ baseTypeOf element)
        else if prefixWidth > uint32Max - 10 then
          .error "versioned fixed member prefix exceeds 32-bit offset"
        else fixedPrefix version member elements (prefixWidth + 10)
      else
        match fixedPrimitiveWidth element with
        | .error reason => .error ("versioned fixed member prefix is not arithmetic: " ++ reason)
        | .ok width =>
            if prefixWidth + width > uint32Max then
              .error "versioned fixed member prefix exceeds 32-bit offset"
            else fixedPrefix version member elements (prefixWidth + width)

/-- What the reason of a changed member says about its two sides. -/
def changedMember (version : Int) (member onFileType dictionaryType : String)
    (onFileBytes dictionaryBytes onFileLength dictionaryLength onFileRank dictionaryRank : Nat) :
    String :=
  "projected fixed member changed persistent type or shape in serialized element version " ++
    toString version ++ " (field=" ++ member ++ ", on_file_type=" ++ onFileType ++
    ", dictionary_type=" ++ dictionaryType ++ ", on_file_scalar_bytes=" ++ toString onFileBytes ++
    ", dictionary_scalar_bytes=" ++ toString dictionaryBytes ++ ", on_file_array_length=" ++
    toString onFileLength ++ ", dictionary_array_length=" ++ toString dictionaryLength ++
    ", on_file_rank=" ++ toString onFileRank ++ ", dictionary_rank=" ++ toString dictionaryRank ++ ")"

/-- `ResolveSerializedFixedLayout` on the plan of a nested element's member. -/
def resolveSerializedFixedLayout (plan : NestedFixedPlan) (elementClass : StreamedClass)
    (version : Int) : Except String SerializedEntryLayout :=
  if plan.nestedMemberName = "" || version < 0 then
    .error "serialized fixed projection has no versioned member metadata"
  else
    match elementClass.streamerInfo version with
    | none =>
        .error ("ROOT has no TStreamerInfo for serialized fixed element version " ++
          toString version)
    | some elements =>
        match fixedPrefix version plan.nestedMemberName elements 0 with
        | .error reason => .error reason
        | .ok (prefixWidth, target) =>
            match fixedPrimitiveWidth target with
            | .error reason => .error ("versioned fixed target is not arithmetic: " ++ reason)
            | .ok targetWidth =>
                match streamerPrimitiveType target.type target.typeName with
                | .error e => .error e
                | .ok targetType =>
                    match primitiveTypeSize targetType, primitiveBaseType targetType with
                    | .ok scalarWidth, .ok baseType =>
                        let length := (fixedArrayLength target).1
                        let dimensions := (fixedArrayLength target).2
                        let targetKind := classifySerializedPrimitive baseType
                        let plannedKind := classifySerializedPrimitive plan.valueType
                        let identical :=
                          targetKind = plannedKind && scalarWidth = plan.valueBytes
                        let widen := targetKind = .float32 && plannedKind = .float64 &&
                          scalarWidth = 4 && plan.valueBytes = 8
                        if length = 0 || scalarWidth = 0 || targetWidth ≠ length * scalarWidth ||
                            targetKind = .unknown || (!identical && !widen) ||
                            length ≠ plan.fixedArrayLength ||
                            dimensions ≠ plan.arrayDimensions then
                          .error (changedMember version plan.nestedMemberName targetType
                            plan.valueType scalarWidth plan.valueBytes length plan.fixedArrayLength
                            dimensions.length plan.arrayDimensions.length)
                        else
                          .ok {
                            valueType := baseType
                            primitiveKind := targetKind
                            bytesBeforeValuePerElement := prefixWidth
                            valueBytes := scalarWidth
                            fixedArrayLength := plan.fixedArrayLength
                            arrayDimensions := plan.arrayDimensions
                            indexDepth := 1 + if plan.fixedArrayLength > 1 then
                              max 1 plan.arrayDimensions.length else 0 }
                    | .error e, _ => .error e
                    | _, .error e => .error e

/-- `ResolveSerializedNestedFixedLayout`. -/
def resolveSerializedNestedFixedLayout (plan : NestedFixedPlan) (version : Int) :
    Except String SerializedEntryLayout :=
  match plan.nestedElementClass with
  | none => .error "nested fixed projection has no persistent element metadata"
  | some elementClass =>
      if !plan.isKind .nestedFixedMember || plan.nestedMemberName = "" then
        .error "nested fixed projection has no persistent element metadata"
      else resolveSerializedFixedLayout plan elementClass version

/-- The width of one element's part in a column of the member-wise vector. -/
def streamedWidth (element : TStreamerElement) : Except String Nat :=
  if element.isBase then
    if baseTypeOf element ≠ "TObject" then
      .error ("nested member-wise element has unsupported base: " ++ baseTypeOf element)
    else .ok 10
  else
    match fixedPrimitiveWidth element with
    | .error reason => .error ("nested member-wise stride is not fixed: " ++ reason)
    | .ok width => .ok width

/-- The loop over all elements. -/
def strideOf (member : String) :
    List (Option TStreamerElement) → Nat → Bool → Except String (Nat × Bool)
  | [], stride, targetSeen => .ok (stride, targetSeen)
  | none :: _, _, _ => .error "nested member-wise element contains invalid streamer metadata"
  | some element :: elements, stride, targetSeen =>
      match streamedWidth element with
      | .error reason => .error reason
      | .ok width =>
          if stride > uint64Max - width then
            .error "nested member-wise element stride overflow"
          else
            strideOf member elements (stride + width)
              (targetSeen || (!element.isBase && member = element.name))

/-- `ResolveSerializedNestedMemberWiseStride`. -/
def resolveSerializedNestedMemberWiseStride (plan : NestedFixedPlan) (version : Int) :
    Except String Nat :=
  match plan.nestedElementClass with
  | none => .error "nested member-wise stride requires a versioned element class"
  | some elementClass =>
      if !plan.isKind .nestedFixedMember || version < 0 then
        .error "nested member-wise stride requires a versioned element class"
      else
        match elementClass.streamerInfo version with
        | none => .error "nested member-wise element has no matching on-file streamer"
        | some elements =>
            match strideOf plan.nestedMemberName elements 0 false with
            | .error reason => .error reason
            | .ok (stride, targetSeen) =>
                if !targetSeen || stride = 0 then
                  .error "nested fixed member missing from versioned member-wise element"
                else .ok stride

/-! ### The columns of an element -/

/-- The part of one element in a column: `length` numbers of `width` bytes. -/
structure StreamedColumn where
  width : Nat
  length : Nat
  deriving DecidableEq, Repr

def StreamedColumn.bytes (column : StreamedColumn) : Nat := column.width * column.length

/-- The bytes one element has in some columns. -/
def columnBytes (columns : List StreamedColumn) : Nat := (columns.map StreamedColumn.bytes).sum

/-- The column of a streamer element. A `TObject` is ten bytes. -/
def streamedColumn (element : TStreamerElement) : Option StreamedColumn :=
  if element.isBase then some ⟨1, 10⟩
  else
    match streamerPrimitiveType element.type element.typeName with
    | .error _ => none
    | .ok type =>
        match primitiveTypeSize type with
        | .error _ => none
        | .ok size => some ⟨size, (fixedArrayLength element).1⟩

def streamedColumns : List (Option TStreamerElement) → Option (List StreamedColumn)
  | [] => some []
  | none :: _ => none
  | some element :: elements =>
      match streamedColumn element, streamedColumns elements with
      | some column, some columns => some (column :: columns)
      | _, _ => none

/-- All columns of an element, the member's among them. -/
structure ElementColumns where
  before : List StreamedColumn
  target : StreamedColumn
  after : List StreamedColumn
  deriving DecidableEq, Repr

/-- The columns a file's streamer elements declare. -/
def elementColumns (member : String) : List (Option TStreamerElement) → Option ElementColumns
  | [] => none
  | none :: _ => none
  | some element :: elements =>
      if !element.isBase && member = element.name then
        match streamedColumn element, streamedColumns elements with
        | some target, some after => some ⟨[], target, after⟩
        | _, _ => none
      else
        match streamedColumn element, elementColumns member elements with
        | some column, some columns => some { columns with before := column :: columns.before }
        | _, _ => none

/-- A width is that of an array of a type with a size. -/
theorem fixedPrimitiveWidth_ok {element : TStreamerElement} {width : Nat}
    (h : fixedPrimitiveWidth element = .ok width) :
    ∃ type size, streamerPrimitiveType element.type element.typeName = .ok type ∧
      primitiveTypeSize type = .ok size ∧ width = size * (fixedArrayLength element).1 ∧
      width ≤ uint32Max := by
  rw [fixedPrimitiveWidth] at h
  obtain ⟨-, h⟩ := of_check h
  cases htype : streamerPrimitiveType element.type element.typeName with
  | error e =>
    rw [htype] at h
    exact absurd h (by simp)
  | ok type =>
    rw [htype] at h
    dsimp only at h
    obtain ⟨-, h⟩ := of_check h
    cases hsize : primitiveTypeSize type with
    | error e =>
      rw [hsize] at h
      exact absurd h (by simp)
    | ok size =>
      rw [hsize] at h
      dsimp only at h
      obtain ⟨hlimit, h⟩ := of_check h
      simp only [Bool.or_eq_true, decide_eq_true_eq, not_or, gt_iff_lt, Nat.not_lt] at hlimit
      refine ⟨type, size, rfl, hsize, (Except.ok.inj h).symm, ?_⟩
      rw [← Except.ok.inj h, Nat.mul_comm]
      exact Nat.mul_le_of_le_div _ _ _ hlimit.2

theorem streamedColumn_of_width {element : TStreamerElement} {width : Nat}
    (h : streamedWidth element = .ok width) :
    ∃ column, streamedColumn element = some column ∧ column.bytes = width := by
  rw [streamedWidth] at h
  by_cases hbase : element.isBase = true
  · rw [if_pos hbase] at h
    obtain ⟨-, h⟩ := of_check h
    exact ⟨⟨1, 10⟩, by rw [streamedColumn, if_pos hbase], Except.ok.inj h⟩
  · rw [if_neg hbase] at h
    cases hwidth : fixedPrimitiveWidth element with
    | error reason =>
      rw [hwidth] at h
      exact absurd h (by simp)
    | ok primitiveWidth =>
      rw [hwidth] at h
      obtain ⟨type, size, htype, hsize, hproduct, -⟩ := fixedPrimitiveWidth_ok hwidth
      refine ⟨⟨size, (fixedArrayLength element).1⟩, ?_, ?_⟩
      · rw [streamedColumn, if_neg hbase, htype]
        dsimp only
        rw [hsize]
      · rw [StreamedColumn.bytes, ← hproduct, Except.ok.inj h]

/-- A stride is the bytes of the columns. -/
theorem columns_of_stride {member : String} (elements : List (Option TStreamerElement)) :
    ∀ {stride total : Nat} {seen found : Bool},
      strideOf member elements stride seen = .ok (total, found) →
      ∃ columns, streamedColumns elements = some columns ∧
        total = stride + columnBytes columns := by
  induction elements with
  | nil =>
    intro stride total seen found h
    obtain ⟨rfl, -⟩ := Prod.mk.inj (Except.ok.inj h)
    exact ⟨[], rfl, rfl⟩
  | cons head elements ih =>
    intro stride total seen found h
    cases head with
    | none => exact absurd h (by simp [strideOf])
    | some element =>
      rw [strideOf] at h
      cases hwidth : streamedWidth element with
      | error reason =>
        rw [hwidth] at h
        exact absurd h (by simp)
      | ok width =>
        rw [hwidth] at h
        dsimp only at h
        obtain ⟨-, h⟩ := of_check h
        obtain ⟨column, hcolumn, hbytes⟩ := streamedColumn_of_width hwidth
        obtain ⟨columns, hcolumns, htotal⟩ := ih h
        refine ⟨column :: columns, by rw [streamedColumns, hcolumn, hcolumns], ?_⟩
        rw [htotal, columnBytes, columnBytes, List.map_cons, List.sum_cons, hbytes, Nat.add_assoc]

/-- The prefix ends where the member's column begins. -/
theorem columns_of_prefix {version : Int} {member : String}
    (elements : List (Option TStreamerElement)) :
    ∀ {start offset stride total : Nat} {target : TStreamerElement} {seen found : Bool},
      fixedPrefix version member elements start = .ok (offset, target) →
      strideOf member elements stride seen = .ok (total, found) →
      ∃ columns, elementColumns member elements = some columns ∧
        streamedColumn target = some columns.target ∧ target.isBase = false ∧
        offset = start + columnBytes columns.before ∧
        total = stride + (columnBytes columns.before + columns.target.bytes +
          columnBytes columns.after) := by
  induction elements with
  | nil => exact fun h => absurd h (by simp [fixedPrefix])
  | cons head elements ih =>
    intro start offset stride total target seen found hbefore hstride
    cases head with
    | none => exact absurd hstride (by simp [strideOf])
    | some element =>
      rw [strideOf] at hstride
      cases hwidth : streamedWidth element with
      | error reason =>
        rw [hwidth] at hstride
        exact absurd hstride (by simp)
      | ok width =>
        rw [hwidth] at hstride
        dsimp only at hstride
        obtain ⟨-, hstride⟩ := of_check hstride
        obtain ⟨column, hcolumn, hbytes⟩ := streamedColumn_of_width hwidth
        rw [fixedPrefix] at hbefore
        by_cases hmember : (!element.isBase && decide (member = element.name)) = true
        · rw [if_pos hmember] at hbefore
          obtain ⟨rfl, rfl⟩ := Prod.mk.inj (Except.ok.inj hbefore)
          obtain ⟨columns, hcolumns, htotal⟩ := columns_of_stride elements hstride
          refine ⟨⟨[], column, columns⟩, ?_, hcolumn, ?_, rfl, ?_⟩
          · rw [elementColumns, if_pos hmember, hcolumn, hcolumns]
          · cases hbase : element.isBase with
            | false => rfl
            | true => rw [hbase] at hmember; exact absurd hmember (by simp)
          · rw [htotal, hbytes]
            simp only [columnBytes, List.map_nil, List.sum_nil]
            omega
        · rw [if_neg hmember] at hbefore
          -- the element is a base or a member before the projected one: both sums count it
          have hnext : fixedPrefix version member elements (start + width) =
              .ok (offset, target) := by
            rw [streamedWidth] at hwidth
            by_cases hbase : element.isBase = true
            · rw [if_pos hbase] at hbefore hwidth
              obtain ⟨-, hbefore⟩ := of_check hbefore
              obtain ⟨-, hbefore⟩ := of_check hbefore
              obtain ⟨-, hwidth⟩ := of_check hwidth
              rw [← Except.ok.inj hwidth]
              exact hbefore
            · rw [if_neg hbase] at hbefore hwidth
              cases hfixed : fixedPrimitiveWidth element with
              | error reason =>
                rw [hfixed] at hwidth
                exact absurd hwidth (by simp)
              | ok fixed =>
                rw [hfixed] at hbefore hwidth
                dsimp only at hbefore hwidth
                obtain ⟨-, hbefore⟩ := of_check hbefore
                rw [← Except.ok.inj hwidth]
                exact hbefore
          obtain ⟨columns, hcolumns, htarget, hbase, hoffset, htotal⟩ := ih hnext hstride
          refine ⟨{ columns with before := column :: columns.before }, ?_, htarget, hbase, ?_, ?_⟩
          · rw [elementColumns, if_neg hmember, hcolumn, hcolumns]
          · simp only [columnBytes, List.map_cons, List.sum_cons, hbytes] at hoffset ⊢
            omega
          · simp only [columnBytes, List.map_cons, List.sum_cons, hbytes] at htotal ⊢
            omega

/-! ### What the two resolvers accept -/

/-- The columns of a version of the plan's element class. -/
def NestedFixedPlan.onFileColumns (plan : NestedFixedPlan) (version : Int) :
    Option ElementColumns :=
  match plan.nestedElementClass with
  | none => none
  | some elementClass =>
      match elementClass.streamerInfo version with
      | none => none
      | some elements => elementColumns plan.nestedMemberName elements

/-- The file stores the primitive of the dictionary. -/
def SameOnFile (plan : NestedFixedPlan) (layout : SerializedEntryLayout) : Prop :=
  layout.primitiveKind = classifySerializedPrimitive plan.valueType ∧
    layout.valueBytes = plan.valueBytes

/-- The file stores a `FLOAT32` where the dictionary has a `FLOAT64`. -/
def WidenedFromFile (plan : NestedFixedPlan) (layout : SerializedEntryLayout) : Prop :=
  layout.primitiveKind = .float32 ∧ classifySerializedPrimitive plan.valueType = .float64 ∧
    layout.valueBytes = 4 ∧ plan.valueBytes = 8

/-- A layout and a stride that the resolvers give for one version. -/
structure Resolves (plan : NestedFixedPlan) (version : Int) (layout : SerializedEntryLayout)
    (stride : Nat) : Prop where
  layout_eq : resolveSerializedNestedFixedLayout plan version = .ok layout
  stride_eq : resolveSerializedNestedMemberWiseStride plan version = .ok stride

section Resolved

variable {plan : NestedFixedPlan} {version : Int} {layout : SerializedEntryLayout} {stride : Nat}

/-- The prefix and the target a layout was made from. -/
theorem target_of_layout (h : resolveSerializedNestedFixedLayout plan version = .ok layout) :
    ∃ elementClass elements target, plan.nestedElementClass = some elementClass ∧
      elementClass.streamerInfo version = some elements ∧
      fixedPrefix version plan.nestedMemberName elements 0 =
        .ok (layout.bytesBeforeValuePerElement, target) ∧
      (target.isBase = false →
        streamedColumn target = some ⟨layout.valueBytes, plan.fixedArrayLength⟩) ∧
      0 < layout.valueBytes ∧ 0 < plan.fixedArrayLength ∧
      plan.fixedArrayLength * layout.valueBytes ≤ uint32Max ∧ layout.primitiveKind ≠ .unknown ∧
      (SameOnFile plan layout ∨ WidenedFromFile plan layout) := by
  rw [resolveSerializedNestedFixedLayout] at h
  cases hclass : plan.nestedElementClass with
  | none =>
    rw [hclass] at h
    exact absurd h (by simp)
  | some elementClass =>
  rw [hclass] at h
  dsimp only at h
  obtain ⟨-, h⟩ := of_check h
  rw [resolveSerializedFixedLayout] at h
  obtain ⟨-, h⟩ := of_check h
  cases helements : elementClass.streamerInfo version with
  | none =>
    rw [helements] at h
    exact absurd h (by simp)
  | some elements =>
  rw [helements] at h
  dsimp only at h
  cases hbefore : fixedPrefix version plan.nestedMemberName elements 0 with
  | error reason =>
    rw [hbefore] at h
    exact absurd h (by simp)
  | ok found =>
  obtain ⟨offset, target⟩ := found
  rw [hbefore] at h
  dsimp only at h
  cases hwidth : fixedPrimitiveWidth target with
  | error reason =>
    rw [hwidth] at h
    exact absurd h (by simp)
  | ok targetWidth =>
  rw [hwidth] at h
  dsimp only at h
  cases htype : streamerPrimitiveType target.type target.typeName with
  | error e =>
    rw [htype] at h
    exact absurd h (by simp)
  | ok targetType =>
  rw [htype] at h
  dsimp only at h
  cases hsize : primitiveTypeSize targetType with
  | error e =>
    rw [hsize] at h
    exact absurd h (by simp)
  | ok scalarWidth =>
  cases hbase : primitiveBaseType targetType with
  | error e =>
    rw [hsize, hbase] at h
    exact absurd h (by simp)
  | ok baseType =>
  rw [hsize, hbase] at h
  dsimp only at h
  unfold SameOnFile WidenedFromFile
  generalize classifySerializedPrimitive baseType = targetKind at h
  generalize classifySerializedPrimitive plan.valueType = plannedKind at h ⊢
  obtain ⟨hchecks, h⟩ := of_check h
  simp only [Bool.or_eq_true, decide_eq_true_eq, not_or, not_not] at hchecks
  obtain ⟨⟨⟨⟨⟨⟨hlength, hscalar⟩, hproduct⟩, hknown⟩, hkinds⟩, hsame⟩, -⟩ := hchecks
  rw [← Except.ok.inj h]
  refine ⟨elementClass, elements, target, rfl, helements, hbefore, fun hmember => ?_,
    Nat.pos_of_ne_zero hscalar, hsame ▸ Nat.pos_of_ne_zero hlength,
    ?_, hknown, ?_⟩
  · rw [streamedColumn, if_neg (by simp [hmember]), htype]
    dsimp only
    rw [hsize, hsame]
  · obtain ⟨-, -, -, -, -, hlimit⟩ := fixedPrimitiveWidth_ok hwidth
    rw [← hsame, ← hproduct]
    exact hlimit
  · rw [Bool.and_eq_true, Bool.not_eq_true', Bool.not_eq_true', not_and_or, Bool.not_eq_false,
      Bool.not_eq_false] at hkinds
    rcases hkinds with hidentical | hwidened
    · rw [Bool.and_eq_true, decide_eq_true_eq, decide_eq_true_eq] at hidentical
      exact .inl hidentical
    · simp only [Bool.and_eq_true, decide_eq_true_eq] at hwidened
      exact .inr ⟨hwidened.1.1.1, hwidened.1.1.2, hwidened.1.2, hwidened.2⟩

/-- The layout and the stride are about one list of columns, the columns of the file. -/
theorem Resolves.columns (h : Resolves plan version layout stride) :
    ∃ columns, plan.onFileColumns version = some columns ∧
      columns.target = ⟨layout.valueBytes, plan.fixedArrayLength⟩ ∧
      layout.bytesBeforeValuePerElement = columnBytes columns.before ∧
      stride = columnBytes columns.before + layout.valueBytes * plan.fixedArrayLength +
        columnBytes columns.after := by
  obtain ⟨elementClass, elements, target, hclass, helements, hbefore, hcolumn, -⟩ :=
    target_of_layout h.layout_eq
  have hstride := h.stride_eq
  rw [resolveSerializedNestedMemberWiseStride, hclass] at hstride
  dsimp only at hstride
  obtain ⟨-, hstride⟩ := of_check hstride
  rw [helements] at hstride
  dsimp only at hstride
  cases hsum : strideOf plan.nestedMemberName elements 0 false with
  | error reason =>
    rw [hsum] at hstride
    exact absurd hstride (by simp)
  | ok result =>
    obtain ⟨total, found⟩ := result
    rw [hsum] at hstride
    dsimp only at hstride
    obtain ⟨-, hstride⟩ := of_check hstride
    obtain ⟨columns, hcolumns, htarget, hmember, hoffset, htotal⟩ :=
      columns_of_prefix elements hbefore hsum
    have htarget := Option.some.inj (htarget.symm.trans (hcolumn hmember))
    refine ⟨columns, ?_, htarget, ?_, ?_⟩
    · rw [NestedFixedPlan.onFileColumns, hclass]
      dsimp only
      rw [helements]
      exact hcolumns
    · rw [hoffset, Nat.zero_add]
    · rw [← Except.ok.inj hstride, htotal, htarget, StreamedColumn.bytes, Nat.zero_add]

end Resolved

end RootLake.Serialized

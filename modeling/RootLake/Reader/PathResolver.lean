import RootLake.Reader.PathLevel
import RootLake.Reader.SemanticTypes

/-!
# Resolving paths against streamer metadata

A path is resolved field by field: each field is looked up in the streamer of the class
reached so far and in its bases, and gives one level. A pointer, a container and an array of
objects start a new object, so the offsets of the levels behind them begin at zero again.
-/

namespace RootLake

open SemanticTypes

/-- A member or base of a class as its current streamer describes it. -/
structure StreamerMember where
  name : String
  typeName : String
  type : Int
  isBase : Bool := false
  isaPointer : Bool := false
  maxIndex : List Int32 := []
  offset : Int
  classPointer : Option TClass := none
  deriving DecidableEq, Repr

/-- What the resolver asks a class for. Classes without a streamer have no members, and those
    with a collection proxy have a value class, which may be null. -/
structure ClassInfo where
  name : String
  size : Nat
  members : Option (List StreamerMember) := none
  valueClass : Option (Option TClass) := none
  deriving DecidableEq, Repr

/-- The loaded dictionary. -/
structure Dictionary where
  classes : List ClassInfo
  getClass : String → Option TClass

def Dictionary.info (dictionary : Dictionary) (klass : TClass) : ClassInfo :=
  dictionary.classes.getD klass ⟨"", 0, none, none⟩

/-- One resolved level with the offset in the object it is part of. -/
structure ResolvedLevel extends PathLevel where
  cumulativeOffset : Int

/-! ### Fields of a class -/

/-- `FindStreamerField`: the member and its offset, from the class or else from its bases. A
    class is not visited below itself, so the classes bound the depth. -/
def findStreamerField (dictionary : Dictionary) (field : String) :
    Nat → TClass → List String → Option (StreamerMember × Int)
  | 0, _, _ => none
  | depth + 1, klass, visited =>
      let info := dictionary.info klass
      if info.name ∈ visited then none
      else
        let members := info.members.getD []
        match members.find? fun member => !member.isBase && field = member.name with
        | some member => some (member, member.offset)
        | none =>
            members.findSome? fun base =>
              if !base.isBase then none
              else
                match base.classPointer.orElse fun _ => dictionary.getClass base.typeName with
                | none => none
                | some baseClass =>
                    (findStreamerField dictionary field depth baseClass
                      (visited ++ [info.name])).map fun found => (found.1, found.2 + base.offset)

/-! ### Levels -/

/-- What the loop of `ResolvePath` carries from field to field. -/
structure ResolveState where
  levels : List ResolvedLevel := []
  cumulative : Int := 0
  currentClass : Option TClass

/-- The class of a level and, if it is a container, that of its elements. -/
def containerClass (dictionary : Dictionary) (klass : Option TClass) : Bool × Option TClass :=
  match klass.bind fun k => (dictionary.info k).valueClass with
  | none => (false, none)
  | some valueClass => (true, valueClass)

/-- `is_primitive ? PrimitiveTypeSize(type) : (klass ? klass->Size() : 0)`. -/
def elementSizeOf (dictionary : Dictionary) (isPrimitive : Bool) (type : String)
    (klass : Option TClass) : Except String Nat :=
  if isPrimitive then primitiveTypeSize type
  else .ok ((klass.map fun k => (dictionary.info k).size).getD 0)

/-- The extents that a type's name declares, as `ParseFixedArrayType` has checked them. -/
def extentsOf : List Nat → Extents → Extents
  | [], extents => extents
  | d :: dimensions, extents =>
      if h : 0 < d ∧ d < 2 ^ 32 then extentsOf dimensions (extents.push d h) else .none

/-- The level of the field `value` of a container that is no map. -/
def valueLevel (dictionary : Dictionary) (container : ResolvedLevel) :
    Except String ResolvedLevel :=
  let type := match container.elementClass with
    | some k => (dictionary.info k).name
    | none => extractInnerType container.type
  let klass := container.elementClass.orElse fun _ =>
    if type.isEmpty then none else dictionary.getClass type
  match isPrimitiveType type with
  | .error e => .error e
  | .ok isPrimitive =>
      match elementSizeOf dictionary isPrimitive type klass with
      | .error e => .error e
      | .ok elementSize =>
          .ok {
            name := "value"
            type := type
            offsetInParent := 0
            cumulativeOffset := container.cumulativeOffset
            isPrimitive := isPrimitive
            isString := isStringType type
            isPointer := false
            isContainer := (containerClass dictionary klass).1
            fixedArray := none
            elementSize := elementSize
            klass := klass
            elementClass := (containerClass dictionary klass).2 }

/-- The type of a member, whether it is primitive, and the extents in its name, which only a
    member without declared extents is searched for. -/
def memberType (strictLayout : Bool) (maxIndex : List Int32) (declaredType : String) :
    Except String (String × Bool × Extents) :=
  let declared := Extents.declared strictLayout maxIndex .start
  match isPrimitiveType declaredType with
  | .error e => .error e
  | .ok isPrimitive =>
      if strictLayout && (declared.length = 0 || declared.dimensions.isEmpty) then
        match parseFixedArrayType declaredType with
        | .error e => .error e
        | .ok parsed =>
            if parsed.length = 0 then .ok (declaredType, isPrimitive, .none)
            else
              match isPrimitiveType (String.ofList parsed.baseType) with
              | .error e => .error e
              | .ok isPrimitive =>
                  .ok (String.ofList parsed.baseType, isPrimitive,
                    extentsOf parsed.dimensions .start)
      else .ok (declaredType, isPrimitive, .none)

/-- The level of a member. -/
def memberLevel (dictionary : Dictionary) (strictLayout : Bool) (field : String)
    (cumulative : Int) (member : StreamerMember) (offset : Int) : Except String ResolvedLevel :=
  match streamerPrimitiveType member.type member.typeName with
  | .error e => .error e
  | .ok declaredType =>
      match memberType strictLayout member.maxIndex declaredType with
      | .error e => .error e
      | .ok (type, isPrimitive, parsedArray) =>
          let fixedArray := resolveFixedArray strictLayout member.maxIndex parsedArray
          let klass := member.classPointer
          match elementSizeOf dictionary isPrimitive type klass with
          | .error e => .error e
          | .ok elementSize =>
              if fixedArray.isSome && elementSize = 0 then
                .error ("Cannot determine element size for fixed ROOT array " ++ field)
              else
                .ok {
                  name := field
                  type := type
                  offsetInParent := offset
                  cumulativeOffset := cumulative + offset
                  isPrimitive := isPrimitive
                  isString := isStringType declaredType
                  isPointer := member.isaPointer
                  isContainer := (containerClass dictionary klass).1
                  fixedArray := fixedArray
                  elementSize := elementSize
                  klass := klass
                  elementClass := (containerClass dictionary klass).2 }

/-- The name a field has in the streamer: the members of a map's pairs are `first` and
    `second`. -/
def streamerFieldName (last : Option ResolvedLevel) (field : String) : String :=
  match last with
  | some level =>
      if level.isContainer && isAssociativeContainerType level.type then
        if field = "key" then "first" else if field = "value" then "second" else field
      else field
  | none => field

/-- Where the next field is looked up: the offset so far and the class. -/
def nextClass (level : ResolvedLevel) : Int × Option TClass :=
  if level.isPointer then (0, level.klass)
  else if level.isContainer then (0, level.elementClass)
  else if level.fixedArray.isSome && level.klass.isSome then (0, level.klass)
  else if level.klass.isSome then (level.cumulativeOffset, level.klass)
  else (level.cumulativeOffset - level.offsetInParent, none)

/-- The strict layout does not descend into a class without a streamer. -/
def withoutStreamer (dictionary : Dictionary) (strictLayout : Bool) (klass : Option TClass) :
    Bool :=
  strictLayout && (klass.map fun k => (dictionary.info k).members.isNone).getD false

/-- A field of the class reached so far. -/
def resolveMember (dictionary : Dictionary) (strictLayout : Bool) (state : ResolveState)
    (field : String) : Except String ResolveState :=
  match state.currentClass with
  | none => .error ("Cannot descend through primitive field before '" ++ field ++ "'")
  | some klass =>
      match findStreamerField dictionary (streamerFieldName state.levels.getLast? field)
          (dictionary.classes.length + 1) klass [] with
      | none => .error ("Field '" ++ field ++ "' is absent in ROOT streamer path")
      | some (member, offset) =>
          match memberLevel dictionary strictLayout field state.cumulative member offset with
          | .error e => .error e
          | .ok level =>
              if withoutStreamer dictionary strictLayout (nextClass level).2 then
                .error ("No TStreamerInfo for nested class " ++
                  (((nextClass level).2.map fun k => (dictionary.info k).name).getD ""))
              else
                .ok {
                  levels := state.levels ++ [level]
                  cumulative := (nextClass level).1
                  currentClass := (nextClass level).2 }

/-- The field `value` of the container reached so far; `terminal` is the last field. -/
def resolveValue (dictionary : Dictionary) (state : ResolveState) (container : ResolvedLevel)
    (terminal : Bool) : Except String ResolveState :=
  match valueLevel dictionary container with
  | .error e => .error e
  | .ok level =>
      if !terminal && level.klass.isNone then
        .error ("Cannot descend through container value type: " ++ level.type)
      else
        .ok {
          levels := state.levels ++ [level]
          cumulative := if level.isContainer then 0 else level.cumulativeOffset
          currentClass := if level.isContainer then level.elementClass else level.klass }

/-- One field of the loop of `ResolvePath`. -/
def resolveField (dictionary : Dictionary) (strictLayout : Bool) (state : ResolveState)
    (field : String) (terminal : Bool) : Except String ResolveState :=
  match state.levels.getLast? with
  | none => resolveMember dictionary strictLayout state field
  | some last =>
      if field = "value" && last.isContainer && !isAssociativeContainerType last.type then
        resolveValue dictionary state last terminal
      else resolveMember dictionary strictLayout state field

def resolveFields (dictionary : Dictionary) (strictLayout : Bool) :
    List String → ResolveState → Except String ResolveState
  | [], state => .ok state
  | field :: fields, state =>
      match resolveField dictionary strictLayout state field fields.isEmpty with
      | .error e => .error e
      | .ok next => resolveFields dictionary strictLayout fields next

/-- `ResolvePath`. -/
def resolvePath (dictionary : Dictionary) (rootClass : TClass) (fields : List String)
    (strictLayout : Bool) : Except String (List ResolvedLevel) :=
  if strictLayout && (dictionary.info rootClass).members.isNone then
    .error ("No TStreamerInfo for class " ++ (dictionary.info rootClass).name)
  else
    match resolveFields dictionary strictLayout fields { currentClass := some rootClass } with
    | .error e => .error e
    | .ok state =>
        if state.levels.isEmpty then .error "Resolved ROOT path is empty"
        else .ok state.levels

/-! ### What every level went through -/

/-- The type of a level has a base: no level is made of a type that the text functions throw
    at. -/
def HasBaseType (level : ResolvedLevel) : Prop :=
  ∃ base, primitiveBaseType level.type = .ok base

theorem baseType_of_isPrimitiveType {type : String} {isPrimitive : Bool}
    (h : isPrimitiveType type = .ok isPrimitive) : ∃ base, primitiveBaseType type = .ok base := by
  rw [isPrimitiveType] at h
  cases hbase : primitiveBaseType type with
  | error e =>
    rw [hbase] at h
    exact absurd h (by simp [Except.map])
  | ok base => exact ⟨base, rfl⟩

section Resolving

variable {dictionary : Dictionary} {strictLayout : Bool}

theorem valueLevel_hasBaseType {container level : ResolvedLevel}
    (h : valueLevel dictionary container = .ok level) : HasBaseType level := by
  unfold valueLevel at h
  dsimp only at h
  split at h
  · exact absurd h (by simp)
  · rename_i hprimitive
    split at h
    · exact absurd h (by simp)
    · rw [← Except.ok.inj h]
      exact baseType_of_isPrimitiveType hprimitive

theorem memberType_hasBaseType {maxIndex : List Int32} {declaredType type : String}
    {isPrimitive : Bool} {parsedArray : Extents}
    (h : memberType strictLayout maxIndex declaredType = .ok (type, isPrimitive, parsedArray)) :
    ∃ base, primitiveBaseType type = .ok base := by
  unfold memberType at h
  dsimp only at h
  split at h
  · exact absurd h (by simp)
  rename_i hdeclared
  split at h
  · split at h
    · exact absurd h (by simp)
    split at h
    · rw [← (Prod.mk.inj (Except.ok.inj h)).1]
      exact baseType_of_isPrimitiveType hdeclared
    split at h
    · exact absurd h (by simp)
    · rename_i hprimitive
      rw [← (Prod.mk.inj (Except.ok.inj h)).1]
      exact baseType_of_isPrimitiveType hprimitive
  · rw [← (Prod.mk.inj (Except.ok.inj h)).1]
    exact baseType_of_isPrimitiveType hdeclared

theorem memberLevel_hasBaseType {field : String} {cumulative offset : Int}
    {member : StreamerMember} {level : ResolvedLevel}
    (h : memberLevel dictionary strictLayout field cumulative member offset = .ok level) :
    HasBaseType level := by
  unfold memberLevel at h
  split at h
  · exact absurd h (by simp)
  split at h
  · exact absurd h (by simp)
  rename_i htype
  dsimp only at h
  split at h
  · exact absurd h (by simp)
  split at h
  · exact absurd h (by simp)
  · rw [← Except.ok.inj h]
    exact memberType_hasBaseType htype

/-- A field adds one level, whose type has a base. -/
theorem resolveField_levels {state next : ResolveState} {field : String} {terminal : Bool}
    (h : resolveField dictionary strictLayout state field terminal = .ok next) :
    ∃ level, next.levels = state.levels ++ [level] ∧ HasBaseType level := by
  have hmember (h : resolveMember dictionary strictLayout state field = .ok next) :
      ∃ level, next.levels = state.levels ++ [level] ∧ HasBaseType level := by
    unfold resolveMember at h
    split at h
    · exact absurd h (by simp)
    split at h
    · exact absurd h (by simp)
    split at h
    · exact absurd h (by simp)
    rename_i level hlevel
    split at h
    · exact absurd h (by simp)
    · rw [← Except.ok.inj h]
      exact ⟨level, rfl, memberLevel_hasBaseType hlevel⟩
  unfold resolveField at h
  split at h
  · exact hmember h
  split at h
  · unfold resolveValue at h
    split at h
    · exact absurd h (by simp)
    rename_i level hlevel
    split at h
    · exact absurd h (by simp)
    · rw [← Except.ok.inj h]
      exact ⟨level, rfl, valueLevel_hasBaseType hlevel⟩
  · exact hmember h

theorem resolveFields_hasBaseType (fields : List String) :
    ∀ {state last : ResolveState}, (∀ level ∈ state.levels, HasBaseType level) →
      resolveFields dictionary strictLayout fields state = .ok last →
      ∀ level ∈ last.levels, HasBaseType level := by
  induction fields with
  | nil =>
    intro state last hstate h
    rw [← Except.ok.inj h]
    exact hstate
  | cons field fields ih =>
    intro state last hstate h
    rw [resolveFields] at h
    cases hfield : resolveField dictionary strictLayout state field fields.isEmpty with
    | error e =>
      rw [hfield] at h
      exact absurd h (by simp)
    | ok next =>
      rw [hfield] at h
      obtain ⟨level, hlevels, hbase⟩ := resolveField_levels hfield
      refine ih (fun other hother => ?_) h
      rw [hlevels] at hother
      rcases List.mem_append.mp hother with hother | hother
      · exact hstate other hother
      · rwa [List.mem_singleton.mp hother]

/-- Every type of a resolved path has a base. -/
theorem resolvePath_hasBaseType {rootClass : TClass} {fields : List String}
    {levels : List ResolvedLevel}
    (h : resolvePath dictionary rootClass fields strictLayout = .ok levels) :
    ∀ level ∈ levels, HasBaseType level := by
  unfold resolvePath at h
  split at h
  · exact absurd h (by simp)
  split at h
  · exact absurd h (by simp)
  rename_i state hstate
  split at h
  · exact absurd h (by simp)
  · rw [← Except.ok.inj h]
    exact resolveFields_hasBaseType fields (fun _ hlevel => absurd hlevel List.not_mem_nil) hstate

end Resolving

end RootLake

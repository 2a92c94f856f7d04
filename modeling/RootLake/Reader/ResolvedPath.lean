import RootLake.Lib.Text
import RootLake.Reader.PathResolver
import Mathlib.Algebra.BigOperators.Ring.List
import Mathlib.Tactic.SplitIfs

/-!
# What a resolved path carries

Every level of a resolved path has the name of its field, a type made of characters that the
streamer metadata has, an offset inside of a class, and a length that is the product of its
extents. Its cumulative offset follows from the levels before it (`resolvePath_spec`).
-/

namespace RootLake

open SemanticTypes Text

/-! ### Types are parts of the metadata's texts -/

namespace SemanticTypes

theorem stripStd_subset (type : List Char) : stripStd type ⊆ type := by
  unfold stripStd
  split
  · exact List.drop_subset 5 type
  · exact List.Subset.refl type

theorem stripConst_subset (fuel : Nat) (type : List Char) : stripConst fuel type ⊆ type := by
  induction fuel generalizing type with
  | zero => exact List.Subset.refl type
  | succ fuel ih =>
    rw [stripConst]
    split
    · exact List.Subset.trans (ih _) (List.drop_subset 6 type)
    · exact List.Subset.refl type

theorem dropWhile_reverse_subset (p : Char → Bool) (type : List Char) :
    (type.reverse.dropWhile p).reverse ⊆ type := by
  intro c hc
  rw [List.mem_reverse] at hc
  exact List.mem_reverse.mp ((List.dropWhile_sublist p).subset hc)

theorem trimType_subset (type : List Char) : trimType type ⊆ type := by
  unfold trimType
  refine List.Subset.trans (stripStd_subset _) ?_
  refine List.Subset.trans (dropWhile_reverse_subset _ _) ?_
  refine List.Subset.trans (stripConst_subset _ _) ?_
  exact List.Subset.trans (dropWhile_reverse_subset _ _) (List.dropWhile_sublist _).subset

theorem baseType_subset {rawType : String} {info : FixedArrayTypeInfo}
    (h : parseFixedArrayType rawType = .ok info) : info.baseType ⊆ rawType.toList := by
  have hbase := stripStd_subset rawType.toList
  have htrimmed (p : Char → Bool) :
      trimType ((stripStd rawType.toList).takeWhile p) ⊆ rawType.toList :=
    List.Subset.trans (trimType_subset _)
      (List.Subset.trans (List.takeWhile_sublist _).subset hbase)
  unfold parseFixedArrayType at h
  dsimp only at h
  split at h
  · obtain rfl := Except.ok.inj h
    exact hbase
  · split at h
    · exact absurd h (by simp)
    · obtain rfl := Except.ok.inj h
      dsimp only
      exact htrimmed _
    · obtain rfl := Except.ok.inj h
      dsimp only
      exact htrimmed _

theorem templateArgumentsFrom_printable (rest : List Char) (depth : Nat) (token : List Char)
    (found : List String) (hrest : Printable rest) (htoken : Printable token)
    (hfound : ∀ argument ∈ found, Printable argument.toList) :
    ∀ argument ∈ templateArgumentsFrom rest depth token found, Printable argument.toList := by
  have hmore {found : List String} {token : List Char} (htoken : Printable token)
      (hfound : ∀ argument ∈ found, Printable argument.toList) :
      ∀ argument ∈ found ++ [String.ofList (trimType token)], Printable argument.toList := by
    intro argument hargument
    rcases List.mem_append.mp hargument with hargument | hargument
    · exact hfound argument hargument
    · rw [List.mem_singleton.mp hargument, String.toList_ofList]
      exact htoken.of_subset (trimType_subset token)
  have hpush {token : List Char} {c : Char} (htoken : Printable token) (hc : ' ' ≤ c) :
      Printable (token ++ [c]) := by
    intro d hd
    rcases List.mem_append.mp hd with hd | hd
    · exact htoken d hd
    · rwa [List.mem_singleton.mp hd]
  fun_induction templateArgumentsFrom rest depth token found with
  | case1 => exact fun _ h => absurd h List.not_mem_nil
  | case2 rest depth token found ih =>
    exact ih (fun c hc => hrest c (List.mem_cons_of_mem _ hc)) (hpush htoken (by decide)) hfound
  | case3 rest token found => exact hmore htoken hfound
  | case4 rest depth token found ih =>
    exact ih (fun c hc => hrest c (List.mem_cons_of_mem _ hc)) (hpush htoken (by decide)) hfound
  | case5 rest token found ih =>
    exact ih (fun c hc => hrest c (List.mem_cons_of_mem _ hc)) (fun _ h => absurd h List.not_mem_nil)
      (hmore htoken hfound)
  | case6 c rest depth token found hopen hend hclose hcomma ih =>
    exact ih (fun d hd => hrest d (List.mem_cons_of_mem _ hd))
      (hpush htoken (hrest c List.mem_cons_self)) hfound

theorem extractInnerType_printable {containerType : String}
    (h : Printable containerType.toList) : Printable (extractInnerType containerType).toList := by
  have hall : ∀ argument ∈ templateArguments containerType, Printable argument.toList := by
    unfold templateArguments
    split
    · exact fun _ h => absurd h List.not_mem_nil
    · rename_i rest hrest
      refine templateArgumentsFrom_printable rest 0 [] [] (fun c hc => ?_)
        (fun _ h => absurd h List.not_mem_nil) (fun _ h => absurd h List.not_mem_nil)
      exact h c ((List.dropWhile_sublist _).subset (hrest ▸ List.mem_cons_of_mem _ hc))
  rw [extractInnerType]
  cases harguments : templateArguments containerType with
  | nil => exact fun _ h => absurd h List.not_mem_nil
  | cons argument arguments =>
    exact hall argument (harguments ▸ List.mem_cons_self)

theorem streamerPrimitiveType_printable {typeCode : Int} {rawType type : String}
    (h : streamerPrimitiveType typeCode rawType = .ok type) (hraw : Printable rawType.toList) :
    Printable type.toList := by
  have htable : ∀ base ∈ primitiveTypes, Printable base.toList := by
    decide
  unfold streamerPrimitiveType at h
  split at h
  · exact absurd h (by simp)
  split at h
  · rename_i hbase
    rw [← Except.ok.inj h]
    exact htable _ hbase
  · rw [← Except.ok.inj h]
    split
    all_goals first
      | exact htable _ (by decide)
      | skip
    rw [String.toList_ofList]
    exact hraw.of_subset (trimType_subset _)

/-- The length that a type's name declares is the product of the extents. -/
theorem parseExtents_length {rawType : String} {fuel : Nat} {suffix : List Char}
    {dimensions found : List Nat} {length total : Nat}
    (h : parseExtents rawType fuel suffix dimensions length = .ok (some (found, total)))
    (hlength : length = dimensions.prod) (hsmall : length < 2 ^ 64) :
    total = found.prod ∧ total < 2 ^ 64 := by
  induction fuel generalizing suffix dimensions length with
  | zero =>
    rw [parseExtents] at h
    obtain ⟨rfl, rfl⟩ := Prod.mk.inj (Option.some.inj (Except.ok.inj h))
    exact ⟨hlength, hsmall⟩
  | succ fuel ih =>
    rw [parseExtents] at h
    split at h
    · obtain ⟨rfl, rfl⟩ := Prod.mk.inj (Option.some.inj (Except.ok.inj h))
      exact ⟨hlength, hsmall⟩
    · dsimp only at h
      split at h
      · exact absurd h (by simp)
      split at h
      · exact absurd h (by simp)
      split at h
      · exact absurd h (by simp)
      split at h
      · exact absurd h (by simp)
      · rename_i number _ hbounded
        rw [Bool.or_eq_true, decide_eq_true_eq, decide_eq_true_eq, not_or] at hbounded
        refine ih h ?_ ?_
        · rw [List.prod_append, List.prod_singleton, hlength]
        · have hle := (Nat.le_div_iff_mul_le (Nat.pos_of_ne_zero hbounded.1)).mp
            (Nat.le_of_not_lt hbounded.2)
          omega

theorem parsed_length {rawType : String} {info : FixedArrayTypeInfo}
    (h : parseFixedArrayType rawType = .ok info) (hlength : info.length ≠ 0) :
    info.length = info.dimensions.prod ∧ info.length < 2 ^ 64 := by
  unfold parseFixedArrayType at h
  dsimp only at h
  split at h
  · rw [← Except.ok.inj h] at hlength
    exact absurd rfl hlength
  · split at h
    · exact absurd h (by simp)
    · rw [← Except.ok.inj h] at hlength
      exact absurd rfl hlength
    · rename_i dimensions length hparse
      have hspec := parseExtents_length hparse (by simp) (by decide)
      rw [← Except.ok.inj h] at hlength ⊢
      dsimp only at hlength ⊢
      split_ifs at hlength ⊢ with hempty
      · exact absurd rfl hlength
      · exact hspec

end SemanticTypes

/-! ### Extents -/

namespace Extents

/-- The length is the product of the extents, or there are none. -/
def Exact (extents : Extents) : Prop :=
  extents.length = extents.dimensions.prod ∨ extents.length = 0

theorem exact_push {extents : Extents} (hexact : extents.length = extents.dimensions.prod)
    {d : Nat} (h : 0 < d ∧ d < 2 ^ 32) (hsmall : extents.length * d < 2 ^ 64) :
    (extents.push d h).length = (extents.push d h).dimensions.prod := by
  change extents.length * d % 2 ^ 64 = (extents.dimensions ++ [d]).prod
  rw [Nat.mod_eq_of_lt hsmall, List.prod_append, List.prod_singleton, hexact]

/-- The strict layout gives up before the product leaves 64 bits. -/
theorem declared_exact (maxIndex : List Int32) {extents : Extents}
    (h : extents.length = extents.dimensions.prod) : (declared true maxIndex extents).Exact := by
  induction maxIndex generalizing extents with
  | nil => exact Or.inl h
  | cons extent rest ih =>
    rw [declared]
    split
    · rename_i hpos
      split
      · exact Or.inr rfl
      · rename_i hbounded
        have hle := Nat.le_of_not_lt fun hlt => hbounded ⟨rfl, hlt⟩
        have hprod := (Nat.le_div_iff_mul_le (by omega)).mp hle
        exact ih (exact_push h _ (by omega))
    · exact Or.inr rfl

end Extents

theorem extentsOf_zero {dimensions : List Nat} (h : 0 ∈ dimensions) (extents : Extents) :
    extentsOf dimensions extents = .none := by
  induction dimensions generalizing extents with
  | nil => exact absurd h List.not_mem_nil
  | cons d dimensions ih =>
    rw [extentsOf]
    split
    · rename_i hd
      rcases List.mem_cons.mp h with rfl | h
      · exact absurd hd.1 (by decide)
      · exact ih h _
    · rfl

theorem extentsOf_exact {dimensions : List Nat} {extents : Extents}
    (h : extents.length = extents.dimensions.prod)
    (hsmall : extents.length * dimensions.prod < 2 ^ 64) :
    (extentsOf dimensions extents).Exact := by
  induction dimensions generalizing extents with
  | nil => exact Or.inl h
  | cons d dimensions ih =>
    rw [List.prod_cons, ← Nat.mul_assoc] at hsmall
    rw [extentsOf]
    split
    · rename_i hd
      rcases Nat.eq_zero_or_pos dimensions.prod with hzero | hpos
      · rw [extentsOf_zero (List.prod_eq_zero_iff.mp hzero)]
        exact Or.inr rfl
      · have hle : extents.length * d ≤ extents.length * d * dimensions.prod :=
          Nat.le_mul_of_pos_right _ hpos
        have hlength : (extents.push d hd).length = extents.length * d :=
          Nat.mod_eq_of_lt (by omega)
        exact ih (Extents.exact_push h hd (by omega)) (by rw [hlength]; exact hsmall)
    · exact Or.inr rfl

theorem resolveFixedArray_exact {maxIndex : List Int32} {parsedArray : Extents}
    (hparsed : parsedArray.Exact) {array : FixedArray}
    (h : resolveFixedArray true maxIndex parsedArray = some array) :
    array.length = array.dimensions.prod := by
  have hdeclared : (Extents.declared true maxIndex .start).Exact :=
    Extents.declared_exact maxIndex rfl
  have hexact : array.toExtents.Exact := by
    unfold resolveFixedArray at h
    dsimp only at h
    split_ifs at h
    · rw [← Option.some.inj h]
      exact hparsed
    · rw [← Option.some.inj h]
      exact hdeclared
  exact hexact.resolve_right (Nat.ne_of_gt array.length_pos)

/-! ### Fields lie inside of their class -/

/-- The class of a base. -/
def baseClass (dictionary : Dictionary) (base : StreamerMember) : Option TClass :=
  base.classPointer.orElse fun _ => dictionary.getClass base.typeName

/-- What ROOT has in its streamer metadata: names and types without control characters, and
    members and bases that lie inside of their class, whose size is an `Int_t`. -/
structure Dictionary.Sound (dictionary : Dictionary) : Prop where
  class_text : ∀ info ∈ dictionary.classes, Printable info.name.toList
  size_lt : ∀ info ∈ dictionary.classes, info.size < 2 ^ 31
  member_text : ∀ info ∈ dictionary.classes, ∀ member ∈ info.members.getD [],
    Printable member.name.toList ∧ Printable member.typeName.toList
  member_inside : ∀ info ∈ dictionary.classes, ∀ member ∈ info.members.getD [],
    0 ≤ member.offset ∧ member.offset ≤ info.size
  base_inside : ∀ info ∈ dictionary.classes, ∀ base ∈ info.members.getD [],
    base.isBase = true → ∀ k, baseClass dictionary base = some k →
      base.offset + (dictionary.info k).size ≤ info.size

theorem info_mem_or (dictionary : Dictionary) (klass : TClass) :
    dictionary.info klass ∈ dictionary.classes ∨ dictionary.info klass = ⟨"", 0, none, none⟩ := by
  rw [Dictionary.info, List.getD_eq_getElem?_getD]
  cases h : dictionary.classes[klass]? with
  | none => exact Or.inr rfl
  | some info => exact Or.inl (List.mem_of_getElem? h)

section Sound

variable {dictionary : Dictionary} (sound : dictionary.Sound)
include sound

theorem className_printable (klass : TClass) : Printable (dictionary.info klass).name.toList := by
  rcases info_mem_or dictionary klass with h | h
  · exact sound.class_text _ h
  · rw [h]
    exact fun _ hc => absurd hc List.not_mem_nil

/-- A field that is found lies inside of the class. -/
theorem findStreamerField_inside {field : String} {depth : Nat} {klass : TClass}
    {visited : List String} {member : StreamerMember} {offset : Int}
    (h : findStreamerField dictionary field depth klass visited = some (member, offset)) :
    member.name = field ∧ Printable member.name.toList ∧ Printable member.typeName.toList ∧
      0 ≤ offset ∧ offset ≤ (dictionary.info klass).size ∧ offset < 2 ^ 31 := by
  induction depth generalizing klass visited offset with
  | zero => exact absurd h (by simp [findStreamerField])
  | succ depth ih =>
    rw [findStreamerField] at h
    dsimp only at h
    split at h
    · exact absurd h (by simp)
    rcases info_mem_or dictionary klass with hinfo | hinfo
    · have hsize := sound.size_lt _ hinfo
      split at h
      · rename_i found hfound
        obtain ⟨rfl, rfl⟩ := Prod.mk.inj (Option.some.inj h)
        have hmem := List.mem_of_find?_eq_some hfound
        have hname := List.find?_some hfound
        have htext := sound.member_text _ hinfo _ hmem
        have hinside := sound.member_inside _ hinfo _ hmem
        rw [Bool.and_eq_true, decide_eq_true_eq] at hname
        exact ⟨hname.2.symm, htext.1, htext.2, hinside.1, hinside.2, by omega⟩
      · obtain ⟨base, hmem, hbase⟩ := List.exists_of_findSome?_eq_some h
        split at hbase
        · exact absurd hbase (by simp)
        rename_i hisBase
        split at hbase
        · exact absurd hbase (by simp)
        · rename_i k hk
          obtain ⟨⟨found, inner⟩, hfound, hpair⟩ := Option.map_eq_some_iff.mp hbase
          obtain ⟨rfl, rfl⟩ := Prod.mk.inj hpair
          obtain ⟨hname, htext, htype, hnonneg, hle, -⟩ := ih hfound
          have hinside := sound.member_inside _ hinfo _ hmem
          have hbound := sound.base_inside _ hinfo _ hmem (by simpa using hisBase) k hk
          exact ⟨hname, htext, htype, by omega, by omega, by omega⟩
    · rw [hinfo] at h
      exact absurd h (by simp)

/-! ### Levels -/

/-- What a level of a resolved path carries. -/
structure ResolvedLevel.WellFormed (level : ResolvedLevel) : Prop where
  name_text : Printable level.name.toList
  type_text : Printable level.type.toList
  offset_inside : 0 ≤ level.offsetInParent ∧ level.offsetInParent < 2 ^ 31
  array_length : ∀ array, level.fixedArray = some array → array.length = array.dimensions.prod

/-- Where the member behind a level begins. -/
def memberBase : Option ResolvedLevel → Int
  | none => 0
  | some last =>
      if last.isPointer || last.isContainer || last.fixedArray.isSome then 0
      else last.cumulativeOffset

/-- Where the field behind a level begins: the values of a container are where it is. -/
def fieldBase (last : Option ResolvedLevel) (field : String) : Int :=
  match last with
  | none => 0
  | some level =>
      if field = "value" && level.isContainer && !isAssociativeContainerType level.type then
        level.cumulativeOffset
      else memberBase (some level)

/-- The cumulative offsets of the levels behind `last`. -/
def OffsetsChain : Option ResolvedLevel → List ResolvedLevel → Prop
  | _, [] => True
  | last, level :: levels =>
      level.cumulativeOffset = fieldBase last level.name + level.offsetInParent ∧
        OffsetsChain (some level) levels

omit sound in
theorem memberType_exact {maxIndex : List Int32} {declaredType type : String}
    {isPrimitive : Bool} {extents : Extents}
    (h : memberType true maxIndex declaredType = .ok (type, isPrimitive, extents)) :
    extents.Exact ∧ (Printable declaredType.toList → Printable type.toList) := by
  unfold memberType at h
  dsimp only at h
  split at h
  · exact absurd h (by simp)
  split at h
  · split at h
    · exact absurd h (by simp)
    rename_i parsed hparsed
    split at h
    · obtain ⟨rfl, rfl, rfl⟩ := (by simpa using h : _ ∧ _ ∧ _)
      exact ⟨Or.inr rfl, id⟩
    · rename_i hlength
      split at h
      · exact absurd h (by simp)
      · obtain ⟨rfl, rfl, rfl⟩ := (by simpa using h : _ ∧ _ ∧ _)
        have hspec := parsed_length hparsed hlength
        refine ⟨extentsOf_exact rfl ?_, fun htext => ?_⟩
        · rw [show Extents.start.length = 1 from rfl, Nat.one_mul, ← hspec.1]
          exact hspec.2
        · rw [String.toList_ofList]
          exact htext.of_subset (baseType_subset hparsed)
  · obtain ⟨rfl, rfl, rfl⟩ := (by simpa using h : _ ∧ _ ∧ _)
    exact ⟨Or.inr rfl, id⟩

omit sound in
theorem memberLevel_spec {field : String} {cumulative offset : Int} {member : StreamerMember}
    {level : ResolvedLevel}
    (h : memberLevel dictionary true field cumulative member offset = .ok level)
    (hfield : Printable field.toList) (htype : Printable member.typeName.toList)
    (hoffset : 0 ≤ offset ∧ offset < 2 ^ 31) :
    level.WellFormed ∧ level.name = field ∧
      level.cumulativeOffset = cumulative + level.offsetInParent := by
  unfold memberLevel at h
  split at h
  · exact absurd h (by simp)
  rename_i declaredType hdeclared
  split at h
  · exact absurd h (by simp)
  rename_i type isPrimitive parsedArray hmember
  dsimp only at h
  split at h
  · exact absurd h (by simp)
  split at h
  · exact absurd h (by simp)
  · obtain ⟨hexact, htext⟩ := memberType_exact hmember
    obtain rfl := Except.ok.inj h
    exact ⟨⟨hfield, htext (streamerPrimitiveType_printable hdeclared htype), hoffset,
      fun _ harray => resolveFixedArray_exact hexact harray⟩, rfl, rfl⟩

theorem valueLevel_spec {container level : ResolvedLevel}
    (h : valueLevel dictionary container = .ok level) (hcontainer : container.WellFormed) :
    level.WellFormed ∧ level.name = "value" ∧ level.offsetInParent = 0 ∧
      level.cumulativeOffset = container.cumulativeOffset ∧ level.isPointer = false ∧
      level.fixedArray = none := by
  have hvalue : Printable "value".toList := by
    decide
  unfold valueLevel at h
  dsimp only at h
  split at h
  · exact absurd h (by simp)
  split at h
  · exact absurd h (by simp)
  · obtain rfl := Except.ok.inj h
    refine ⟨⟨hvalue, ?_, by simp, fun _ harray => absurd harray (by simp)⟩, rfl, rfl, rfl, rfl,
      rfl⟩
    dsimp only
    split
    · exact className_printable sound _
    · exact extractInnerType_printable hcontainer.type_text

/-! ### Fields -/

/-- What a state of the loop has for the next member. -/
structure ResolveState.WellFormed (state : ResolveState) : Prop where
  last : ∀ level, state.levels.getLast? = some level → level.WellFormed
  continues : state.currentClass.isSome → state.cumulative = memberBase state.levels.getLast?

omit sound in
theorem nextClass_continues (level : ResolvedLevel) (h : (nextClass level).2.isSome) :
    (nextClass level).1 = memberBase (some level) := by
  unfold nextClass at h ⊢
  unfold memberBase
  dsimp only
  split_ifs at h ⊢ <;> simp_all

/-- What a level adds to a state. -/
structure Adds (state next : ResolveState) (field : String) (level : ResolvedLevel) : Prop where
  levels : next.levels = state.levels ++ [level]
  name : level.name = field
  wellFormed : level.WellFormed
  offset : level.cumulativeOffset =
    fieldBase state.levels.getLast? field + level.offsetInParent
  continues : next.currentClass.isSome → next.cumulative = memberBase (some level)

omit sound in
/-- Only a printable field is found. -/
theorem streamerFieldName_printable {last : Option ResolvedLevel} {field : String}
    (h : Printable (streamerFieldName last field).toList) : Printable field.toList := by
  unfold streamerFieldName at h
  split at h
  · split_ifs at h with hmap hkey hvalue
    · rw [hkey]
      decide
    · rw [hvalue]
      decide
    · exact h
    · exact h
  · exact h

theorem resolveMember_spec {state next : ResolveState} {field : String}
    (h : resolveMember dictionary true state field = .ok next) (hstate : state.WellFormed)
    (hbase : fieldBase state.levels.getLast? field = memberBase state.levels.getLast?) :
    ∃ level, Adds state next field level := by
  unfold resolveMember at h
  split at h
  · exact absurd h (by simp)
  rename_i klass hklass
  split at h
  · exact absurd h (by simp)
  rename_i member offset hmember
  split at h
  · exact absurd h (by simp)
  rename_i level hlevel
  split at h
  · exact absurd h (by simp)
  · obtain rfl := Except.ok.inj h
    obtain ⟨hname, htext, htype, hnonneg, -, hsmall⟩ := findStreamerField_inside sound hmember
    have hfield : Printable field.toList := by
      rw [hname] at htext
      exact streamerFieldName_printable htext
    obtain ⟨hlevelFormed, hlevelName, hoffset⟩ :=
      memberLevel_spec hlevel hfield htype ⟨hnonneg, hsmall⟩
    refine ⟨level, rfl, hlevelName, hlevelFormed, ?_, nextClass_continues level⟩
    rw [hoffset, hbase, hstate.continues (by rw [hklass]; rfl)]

theorem resolveField_spec {state next : ResolveState} {field : String} {terminal : Bool}
    (h : resolveField dictionary true state field terminal = .ok next)
    (hstate : state.WellFormed) : ∃ level, Adds state next field level := by
  unfold resolveField at h
  split at h
  · rename_i hlast
    exact resolveMember_spec sound h hstate (by rw [hlast]; rfl)
  rename_i last hlast
  split at h
  · rename_i hvalue
    unfold resolveValue at h
    split at h
    · exact absurd h (by simp)
    rename_i level hlevel
    split at h
    · exact absurd h (by simp)
    · obtain rfl := Except.ok.inj h
      obtain ⟨hformed, hname, hoffset, hcumulative, hpointer, harray⟩ :=
        valueLevel_spec sound hlevel (hstate.last last hlast)
      have hfield : field = "value" := by
        simp only [Bool.and_eq_true, decide_eq_true_eq] at hvalue
        exact hvalue.1.1
      refine ⟨level, rfl, hname.trans hfield.symm, hformed, ?_, fun _ => ?_⟩
      · rw [hlast, fieldBase, if_pos hvalue, hcumulative, hoffset, Int.add_zero]
      · simp [memberBase, hpointer, harray]
  · rename_i hvalue
    refine resolveMember_spec sound h hstate ?_
    rw [hlast, fieldBase, if_neg hvalue]

omit sound in
theorem Adds.next {state next : ResolveState} {field : String} {level : ResolvedLevel}
    (h : Adds state next field level) : next.WellFormed := by
  have hlast : next.levels.getLast? = some level := by rw [h.levels, List.getLast?_concat]
  refine ⟨fun other hother => ?_, fun hclass => ?_⟩
  · rw [hlast] at hother
    rw [← Option.some.inj hother]
    exact h.wellFormed
  · rw [hlast]
    exact h.continues hclass

/-- The loop adds one level a field. -/
theorem resolveFields_spec {fields : List String} {state last : ResolveState}
    (h : resolveFields dictionary true fields state = .ok last) (hstate : state.WellFormed) :
    ∃ levels, last.levels = state.levels ++ levels ∧
      levels.map (fun level => level.name) = fields ∧ (∀ level ∈ levels, level.WellFormed) ∧
      OffsetsChain state.levels.getLast? levels := by
  induction fields generalizing state with
  | nil =>
    rw [← Except.ok.inj h]
    exact ⟨[], by simp, rfl, fun _ hlevel => absurd hlevel List.not_mem_nil, trivial⟩
  | cons field fields ih =>
    rw [resolveFields] at h
    cases hfield : resolveField dictionary true state field fields.isEmpty with
    | error e =>
      rw [hfield] at h
      exact absurd h (by simp)
    | ok next =>
      rw [hfield] at h
      obtain ⟨level, hadds⟩ := resolveField_spec sound hfield hstate
      obtain ⟨levels, hlevels, hnames, hformed, hchain⟩ := ih h hadds.next
      refine ⟨level :: levels, ?_, ?_, ?_, ?_, ?_⟩
      · rw [hlevels, hadds.levels, List.append_assoc, List.singleton_append]
      · rw [List.map_cons, hnames, hadds.name]
      · intro other hother
        rcases List.mem_cons.mp hother with rfl | hother
        · exact hadds.wellFormed
        · exact hformed other hother
      · rw [hadds.name]
        exact hadds.offset
      · rw [hadds.levels, List.getLast?_concat] at hchain
        exact hchain

/-- A resolved path has a level for each of its fields. -/
theorem resolvePath_spec {rootClass : TClass} {fields : List String}
    {levels : List ResolvedLevel}
    (h : resolvePath dictionary rootClass fields true = .ok levels) :
    levels.map (fun level => level.name) = fields ∧ (∀ level ∈ levels, level.WellFormed) ∧
      OffsetsChain none levels := by
  unfold resolvePath at h
  split at h
  · exact absurd h (by simp)
  split at h
  · exact absurd h (by simp)
  rename_i state hstate
  split at h
  · exact absurd h (by simp)
  · obtain rfl := Except.ok.inj h
    obtain ⟨levels, hlevels, hspec⟩ := resolveFields_spec sound hstate
      ⟨fun _ hlast => absurd hlast (by simp), fun _ => rfl⟩
    rw [hlevels]
    exact hspec

end Sound

end RootLake

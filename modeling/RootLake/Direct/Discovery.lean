/-
  RootLake/Direct/Discovery.lean
  ==============================
  **The children a semantic path is described with.**

  `describeSemanticPath` lists what is one level below a path: the members of the class the
  path leads to, `key` and `value` of a map, and `value` of a container of primitives or of
  containers.  Each of these children is resolved before it is listed.  The child `value` of a
  fixed array of primitives or strings is not, and does not resolve: a path below such an
  array leads nowhere (`discovery_sound_iff`).
-/
import RootLake.Direct.IndexColumns
import RootLake.Reader.LogicalPath
import RootLake.Reader.MemberNames

namespace RootLake.Direct

open SemanticTypes

inductive SemanticKind where
  | unknown
  | fixedArray
  | container
  | string
  | primitive
  | object
  deriving DecidableEq, Repr

structure SemanticPathChild where
  path : String
  name : String
  kind : SemanticKind
  rootType : String := ""
  isPrimitive : Bool := false
  isString : Bool := false
  isContainer : Bool := false
  isFixedArray : Bool := false
  isPointer : Bool := false
  deriving DecidableEq, Repr

def childKind (level : PathLevel) : SemanticKind :=
  if level.fixedArray.isSome then .fixedArray
  else if level.isContainer then .container
  else if level.isString then .string
  else if level.isPrimitive then .primitive
  else .object

def makeChild (path : String) (levels : List PathLevel) : SemanticPathChild :=
  let name := String.ofList (path.toList.reverse.takeWhile (· ≠ '/')).reverse
  match levels.getLast? with
  | none => { path := path, name := name, kind := .unknown }
  | some level =>
      { path := path
        name := name
        kind := childKind level
        rootType := level.type
        isPrimitive := level.isPrimitive
        isString := level.isString
        isContainer := level.isContainer
        isFixedArray := level.fixedArray.isSome
        isPointer := level.isPointer }

def normalizePath (path : String) : Except String String :=
  (LogicalPath.normalizePath path.toList).map String.ofList

section Describe

variable (dictionary : Dictionary) (rootClass : TClass)

/-- A child that is listed if its path resolves. -/
def appendSyntheticChild (path : String) : Option SemanticPathChild :=
  let levels := tryResolve dictionary rootClass (parsePathPrefix path).2
  if levels.isEmpty then none else some (makeChild path levels)

/-- The children of the class that a path leads to, if it leads to one. -/
def describeMembers (canonical : String) : Option TClass → Bool × List SemanticPathChild
  | none => (false, [])
  | some target =>
      (true, (collectImmediateMemberNames dictionary target).filterMap fun name =>
        appendSyntheticChild dictionary rootClass (canonical ++ "/" ++ name))

/-- The child `value` of a fixed array. -/
def arrayChild (canonical : String) (terminal : PathLevel) : SemanticPathChild :=
  { makeChild canonical [terminal] with
    path := canonical ++ "/value"
    name := "value"
    kind := if terminal.isString then .string else .primitive
    isFixedArray := false }

/-- The type of a container's elements. -/
def innerType (terminal : PathLevel) : String :=
  match terminal.elementClass with
  | some k => (dictionary.info k).name
  | none => extractInnerType terminal.type

/-- The children of a container. -/
def describeContainer (canonical : String) (terminal : PathLevel) :
    Except String (Bool × List SemanticPathChild) :=
  if isAssociativeContainerType terminal.type then
    .ok (true, ["/key", "/value"].filterMap fun field =>
      appendSyntheticChild dictionary rootClass (canonical ++ field))
  else
    match isPrimitiveType (innerType dictionary terminal) with
    | .error e => .error e
    | .ok isPrimitive =>
        if isPrimitive || isStringType (innerType dictionary terminal) ||
            (containerClass dictionary terminal.elementClass).1 then
          .ok (true, ["/value"].filterMap fun field =>
            appendSyntheticChild dictionary rootClass (canonical ++ field))
        else .ok (describeMembers dictionary rootClass canonical terminal.elementClass)

/-- `DescribeSemanticPath`: whether the path can be described, and its children. -/
def describeSemanticPath (fields : List String) (rawPath : String) :
    Except String (Bool × List SemanticPathChild) :=
  match normalizePath rawPath with
  | .error e => .error e
  | .ok canonical =>
      if fields.isEmpty then
        .ok (describeMembers dictionary rootClass canonical (some rootClass))
      else
        match (tryResolve dictionary rootClass fields).getLast? with
        | none => .ok (false, [])
        | some terminal =>
            -- a scalar has no next level
            if (terminal.isPrimitive || terminal.isString) && terminal.fixedArray.isNone &&
                !terminal.isContainer then .ok (true, [])
            else if terminal.fixedArray.isSome then
              if terminal.isPrimitive || terminal.isString then
                .ok (true, [arrayChild canonical terminal])
              else .ok (describeMembers dictionary rootClass canonical terminal.klass)
            else if terminal.isContainer then
              describeContainer dictionary rootClass canonical terminal
            else .ok (describeMembers dictionary rootClass canonical terminal.klass)

end Describe

/-! ### Paths of children -/

/-- The components of a text. -/
def parts (chars : List Char) : List (List Char) := (chars.splitOn '/').filter (· ≠ [])

theorem parts_append_slash (chars more : List Char) :
    parts (chars ++ '/' :: more) = parts chars ++ parts more := by
  rw [parts, List.splitOn_append_cons_self, List.filter_append]
  rfl

theorem parts_rdropWhile (chars : List Char) :
    parts (chars.rdropWhile (· = '/')) = parts chars := by
  induction chars using List.reverseRecOn with
  | nil => rfl
  | append_singleton chars last ih =>
    by_cases hlast : last = '/'
    · rw [List.rdropWhile_concat_pos _ _ _ (by simpa using hlast), ih, hlast, parts_append_slash]
      exact (List.append_nil _).symm
    · rw [List.rdropWhile_concat_neg _ _ _ (by simpa using hlast)]

theorem parts_of_not_mem {chars : List Char} (h : '/' ∉ chars) : (parts chars).length ≤ 1 := by
  rw [parts, List.splitOn_eq_singleton h]
  exact List.length_filter_le _ _

/-- The text without its first slash. -/
def withoutSlash (chars : List Char) : List Char :=
  if chars.head? = some '/' then chars.tail else chars

/-- The text behind the name of the tree; as in the source, a character more than the name and
    its slash have. -/
def behindEvents (chars : List Char) : List Char :=
  if "events/".toList.isPrefixOf chars then chars.drop 8 else chars

theorem parsePathPrefix_eq (path : String) :
    (parsePathPrefix path).2 =
      (parts (behindEvents (withoutSlash path.toList))).tail.map String.ofList := by
  unfold parsePathPrefix
  dsimp only
  split
  · rename_i hparts
    have hnone : parts (behindEvents (withoutSlash path.toList)) = [] := hparts
    rw [hnone]
    rfl
  · rename_i rootClass fields hparts
    have hsome : parts (behindEvents (withoutSlash path.toList)) = rootClass :: fields := hparts
    rw [hsome]
    rfl

theorem normalizePath_toList {rawPath canonical : String}
    (h : normalizePath rawPath = .ok canonical) :
    canonical.toList = '/' :: (withoutSlash rawPath.toList).rdropWhile (· = '/') := by
  unfold normalizePath at h
  cases hchars : rawPath.toList with
  | nil =>
    rw [hchars] at h
    contradiction
  | cons c rest =>
    rw [hchars] at h
    rw [← Except.ok.inj h, String.toList_ofList, withoutSlash, List.head?_cons]
    by_cases hc : c = '/'
    · rw [if_pos hc, if_pos (congrArg some hc)]
      rfl
    · rw [if_neg hc, if_neg fun h => hc (Option.some.inj h)]

theorem rdropWhile_append {front back : List Char}
    (h : back.rdropWhile (· = '/') ≠ []) :
    (front ++ back).rdropWhile (· = '/') = front ++ back.rdropWhile (· = '/') := by
  have hreverse : back.reverse.dropWhile (· = '/') ≠ [] := by
    simpa [List.rdropWhile] using h
  simp only [List.rdropWhile, List.reverse_append, List.dropWhile_append, List.isEmpty_iff,
    if_neg hreverse, List.reverse_append, List.reverse_reverse]

theorem parts_behindEvents_named {rest field : List Char}
    (hfields : 2 ≤ (parts (behindEvents ("events/".toList ++ rest))).length) :
    parts (behindEvents (("events/".toList ++ rest).rdropWhile (· = '/') ++ '/' :: field)) =
      parts (behindEvents ("events/".toList ++ rest)) ++ parts field := by
  cases rest with
  | nil => exact absurd hfields (by decide)
  | cons c rest =>
    have hbehind (more : List Char) : behindEvents ("events/".toList ++ c :: more) = more := rfl
    rw [hbehind] at hfields ⊢
    have hsome : rest.rdropWhile (· = '/') ≠ [] := by
      intro hnil
      rw [← parts_rdropWhile, hnil] at hfields
      exact absurd hfields (by decide)
    have hsplit : ("events/".toList ++ c :: rest).rdropWhile (· = '/') ++ '/' :: field =
        "events/".toList ++ c :: (rest.rdropWhile (· = '/') ++ '/' :: field) := by
      have hcons : (c :: rest) = [c] ++ rest := rfl
      rw [hcons, ← List.append_assoc, rdropWhile_append hsome]
      simp
    rw [hsplit, hbehind, parts_append_slash, parts_rdropWhile]

/-- Slashes at the end do not hide the name of the tree, and a component behind does not make
    one, where the path has a field. -/
theorem parts_behindEvents {chars : List Char} {field : List Char}
    (hfields : 2 ≤ (parts (behindEvents chars)).length) :
    parts (behindEvents (chars.rdropWhile (· = '/') ++ '/' :: field)) =
      parts (behindEvents chars) ++ parts field := by
  by_cases hevents : ∃ rest, chars = "events/".toList ++ rest
  · obtain ⟨rest, rfl⟩ := hevents
    exact parts_behindEvents_named hfields
  have hplain {text : List Char} (h : ¬ ∃ rest, text = "events/".toList ++ rest) :
      behindEvents text = text := by
    refine if_neg fun hstart => h ?_
    obtain ⟨rest, hrest⟩ := List.isPrefixOf_iff_prefix.mp hstart
    exact ⟨rest, hrest.symm⟩
  rw [hplain hevents] at hfields ⊢
  have hslash : '/' ∈ chars.rdropWhile (· = '/') := by
    by_contra hnone
    have hone := parts_of_not_mem hnone
    rw [parts_rdropWhile] at hone
    omega
  rw [hplain ?_, parts_append_slash, parts_rdropWhile]
  rintro ⟨rest, hrest⟩
  -- the text that is kept would begin with the name, or its second slash would be in the name
  have hkept {more : List Char} (h : chars.rdropWhile (· = '/') = "events/".toList ++ more) :
      False := by
    refine hevents ⟨more ++ chars.rtakeWhile (· = '/'), ?_⟩
    rw [← List.append_assoc, ← h, List.rdropWhile_append_rtakeWhile]
  rcases List.append_eq_append_iff.mp hrest with ⟨more, hname, hmore⟩ | ⟨more, hname, -⟩
  · cases more with
    | nil => exact @hkept [] (by rw [hname, List.append_nil, List.append_nil])
    | cons c more =>
      obtain ⟨rfl, -⟩ := List.cons.inj hmore
      have hcount := congrArg (List.count '/') hname
      rw [List.count_append, List.count_cons_self] at hcount
      have hpositive := List.count_pos_iff.mpr hslash
      have hname : List.count '/' "events/".toList = 1 := by decide
      omega
  · exact hkept hname

/-- The fields of a child's path. -/
theorem parsePathPrefix_child {rawPath canonical : String}
    (h : normalizePath rawPath = .ok canonical) (hfields : (parsePathPrefix rawPath).2 ≠ []) :
    (parsePathPrefix (canonical ++ "/value")).2 = (parsePathPrefix rawPath).2 ++ ["value"] := by
  have hchars : (canonical ++ "/value").toList =
      '/' :: ((withoutSlash rawPath.toList).rdropWhile (· = '/') ++ '/' :: "value".toList) := by
    rw [String.toList_append, normalizePath_toList h]
    rfl
  have hwithout : withoutSlash (canonical ++ "/value").toList =
      (withoutSlash rawPath.toList).rdropWhile (· = '/') ++ '/' :: "value".toList := by
    rw [hchars]
    rfl
  rw [parsePathPrefix_eq] at hfields
  have hparts : 2 ≤ (parts (behindEvents (withoutSlash rawPath.toList))).length := by
    cases hlist : parts (behindEvents (withoutSlash rawPath.toList)) with
    | nil => simp [hlist] at hfields
    | cons rootClass fields =>
      cases fields with
      | nil => simp [hlist] at hfields
      | cons field fields => simp
  rw [parsePathPrefix_eq, parsePathPrefix_eq, hwithout, parts_behindEvents hparts]
  rw [List.tail_append_of_ne_nil (List.ne_nil_of_length_pos (by omega)), List.map_append]
  rfl

/-! ### The last field of a path -/

section LastField

variable {dictionary : Dictionary} {strictLayout : Bool}

theorem resolveValue_ok {state next : ResolveState} {container : ResolvedLevel} {terminal : Bool}
    (h : resolveValue dictionary state container terminal = .ok next) :
    (∃ value, valueLevel dictionary container = .ok value ∧
      next.levels = state.levels ++ [value]) ∧
        resolveValue dictionary state container true = .ok next := by
  unfold resolveValue at h ⊢
  cases hvalue : valueLevel dictionary container with
  | error e =>
    rw [hvalue] at h
    contradiction
  | ok value =>
    rw [hvalue] at h
    dsimp only at h
    split at h
    · contradiction
    · exact ⟨⟨value, rfl, Except.ok.inj h ▸ rfl⟩, h⟩

/-- Being the last one takes nothing from a field. -/
theorem resolveField_last {state next : ResolveState} {field : String} {terminal : Bool}
    (h : resolveField dictionary strictLayout state field terminal = .ok next) :
    resolveField dictionary strictLayout state field true = .ok next := by
  cases terminal with
  | true => exact h
  | false =>
    unfold resolveField at h ⊢
    split at h
    · exact h
    split_ifs at h ⊢
    · exact (resolveValue_ok h).2
    · exact h

theorem resolveFields_append {fields : List String} {field : String} {state next : ResolveState}
    (h : resolveFields dictionary strictLayout (fields ++ [field]) state = .ok next) :
    ∃ before, resolveFields dictionary strictLayout fields state = .ok before ∧
      resolveField dictionary strictLayout before field true = .ok next := by
  induction fields generalizing state with
  | nil =>
    refine ⟨state, rfl, ?_⟩
    rw [List.nil_append, resolveFields] at h
    cases hfield : resolveField dictionary strictLayout state field [].isEmpty with
    | error e =>
      rw [hfield] at h
      contradiction
    | ok last =>
      rw [hfield] at h
      exact Except.ok.inj h ▸ hfield
  | cons first fields ih =>
    rw [List.cons_append, resolveFields] at h
    cases hfirst : resolveField dictionary strictLayout state first
        (fields ++ [field]).isEmpty with
    | error e =>
      rw [hfirst] at h
      contradiction
    | ok middle =>
      rw [hfirst] at h
      obtain ⟨before, hbefore, hlast⟩ := ih h
      refine ⟨before, ?_, hlast⟩
      have hany : resolveField dictionary strictLayout state first fields.isEmpty =
          .ok middle := by
        cases fields with
        | nil => exact resolveField_last hfirst
        | cons second fields => exact hfirst
      rw [resolveFields, hany]
      exact hbefore

/-- A member is resolved the same behind the last field of a path. -/
theorem resolveField_inner {state next : ResolveState} {field : String} {level : ResolvedLevel}
    (h : resolveField dictionary strictLayout state field true = .ok next)
    (hlevel : next.levels.getLast? = some level) (harray : level.fixedArray.isSome = true) :
    resolveField dictionary strictLayout state field false = .ok next := by
  unfold resolveField at h ⊢
  split at h
  · exact h
  split_ifs at h ⊢
  · -- the value of a container is no array
    obtain ⟨⟨value, hvalue, hlevels⟩, -⟩ := resolveValue_ok h
    rw [hlevels, List.getLast?_append] at hlevel
    obtain rfl : value = level := by simpa using hlevel
    unfold valueLevel at hvalue
    dsimp only at hvalue
    split at hvalue
    · contradiction
    split at hvalue
    · contradiction
    rw [← Except.ok.inj hvalue] at harray
    contradiction
  · exact h

theorem resolveFields_extend {fields : List String} {field : String}
    {state before : ResolveState} {level : ResolvedLevel}
    (h : resolveFields dictionary strictLayout fields state = .ok before)
    (hlevel : before.levels.getLast? = some level) (harray : level.fixedArray.isSome = true) :
    resolveFields dictionary strictLayout (fields ++ [field]) state =
      resolveField dictionary strictLayout before field true := by
  induction fields generalizing state with
  | nil =>
    obtain rfl := Except.ok.inj h
    rw [List.nil_append, resolveFields]
    cases hfield : resolveField dictionary strictLayout state field [].isEmpty <;>
      exact hfield.symm
  | cons first fields ih =>
    rw [resolveFields] at h
    cases hfirst : resolveField dictionary strictLayout state first fields.isEmpty with
    | error e =>
      rw [hfirst] at h
      contradiction
    | ok middle =>
      rw [hfirst] at h
      have hinner : resolveField dictionary strictLayout state first
          (fields ++ [field]).isEmpty = .ok middle := by
        cases fields with
        | nil =>
          obtain rfl := Except.ok.inj h
          exact resolveField_inner hfirst hlevel harray
        | cons second fields => exact hfirst
      rw [List.cons_append, resolveFields, hinner]
      exact ih h

end LastField

section Resolved

variable {dictionary : Dictionary} {rootClass : TClass} {fields : List String}

/-- What resolving the fields of a path comes to. -/
def resolveTo (dictionary : Dictionary) (rootClass : TClass) (fields : List String) :
    Except String ResolveState :=
  resolveFields dictionary false fields { currentClass := some rootClass }

theorem tryResolve_getLast? :
    (tryResolve dictionary rootClass fields).getLast? =
      match resolveTo dictionary rootClass fields with
      | .error _ => none
      | .ok state => state.levels.getLast?.map (·.toPathLevel) := by
  unfold tryResolve resolvePath
  rw [Bool.false_and, if_neg Bool.false_ne_true, resolveTo]
  cases resolveFields dictionary false fields { currentClass := some rootClass } with
  | error e => rfl
  | ok state =>
    dsimp only
    split_ifs with hempty
    · rw [List.isEmpty_iff] at hempty
      rw [hempty]
      rfl
    · exact List.getLast?_map

theorem exists_state {level : PathLevel}
    (h : (tryResolve dictionary rootClass fields).getLast? = some level) :
    ∃ state resolved, resolveTo dictionary rootClass fields = .ok state ∧
      state.levels.getLast? = some resolved ∧ resolved.toPathLevel = level := by
  rw [tryResolve_getLast?] at h
  cases hstate : resolveTo dictionary rootClass fields with
  | error e =>
    rw [hstate] at h
    contradiction
  | ok state =>
    rw [hstate] at h
    obtain ⟨resolved, hresolved, hlevel⟩ := Option.map_eq_some_iff.mp h
    exact ⟨state, resolved, rfl, hresolved, hlevel⟩

/-- The last field of a path names the elements of a container, or the member that the class
    reached so far has for it. -/
def NamesUnshadowed (dictionary : Dictionary) (rootClass : TClass) (fields : List String)
    (level : PathLevel) : Prop :=
  ∃ before last state found, fields = before ++ [last] ∧
    resolveTo dictionary rootClass before = .ok state ∧ found.toPathLevel = level ∧
    ((∃ container, state.levels.getLast? = some container ∧ container.isContainer = true ∧
        last = "value" ∧ valueLevel dictionary container = .ok found) ∨
      ∃ klass member offset, state.currentClass = some klass ∧
        Unshadowed dictionary (streamerFieldName state.levels.getLast? last) klass member ∧
        memberLevel dictionary false last state.cumulative member offset = .ok found)

theorem tryResolve_unshadowed {level : PathLevel}
    (h : (tryResolve dictionary rootClass fields).getLast? = some level) :
    NamesUnshadowed dictionary rootClass fields level := by
  obtain ⟨next, found, hnext, hfound, hlevel⟩ := exists_state h
  induction fields using List.reverseRecOn with
  | nil =>
    rw [← Except.ok.inj hnext] at hfound
    contradiction
  | append_singleton before last =>
    obtain ⟨state, hstate, hlast⟩ := resolveFields_append hnext
    refine ⟨before, last, state, found, rfl, hstate, hlevel, ?_⟩
    have hmember (hmember : resolveMember dictionary false state last = .ok next) :
        ∃ klass member offset, state.currentClass = some klass ∧
          Unshadowed dictionary (streamerFieldName state.levels.getLast? last) klass member ∧
          memberLevel dictionary false last state.cumulative member offset = .ok found := by
      unfold resolveMember at hmember
      split at hmember
      · contradiction
      rename_i klass hklass
      split at hmember
      · contradiction
      rename_i member offset hfield
      split at hmember
      · contradiction
      rename_i memberFound hmemberLevel
      split_ifs at hmember
      rw [← Except.ok.inj hmember, List.getLast?_append] at hfound
      obtain rfl : memberFound = found := by simpa using hfound
      exact ⟨klass, member, offset, hklass, findStreamerField_unshadowed hfield, hmemberLevel⟩
    unfold resolveField at hlast
    split at hlast
    · exact Or.inr (hmember hlast)
    rename_i container hcontainer
    split_ifs at hlast with hvalue
    · obtain ⟨⟨value, hvalueLevel, hlevels⟩, -⟩ := resolveValue_ok hlast
      rw [hlevels, List.getLast?_append] at hfound
      obtain rfl : value = found := by simpa using hfound
      simp only [Bool.and_eq_true, decide_eq_true_eq] at hvalue
      exact Or.inl ⟨container, hcontainer, hvalue.1.2, hvalue.1.1, hvalueLevel⟩
    · exact Or.inr (hmember hlast)

end Resolved

/-! ### What is listed -/

section Listed

variable {dictionary : Dictionary} {rootClass : TClass}

/-- A child's path resolves to a level of the kind the child is described with. -/
def Resolves (dictionary : Dictionary) (rootClass : TClass) (child : SemanticPathChild) : Prop :=
  ∃ level, (tryResolve dictionary rootClass (parsePathPrefix child.path).2).getLast? = some level ∧
    childKind level = child.kind

theorem appendSyntheticChild_spec {path : String} {child : SemanticPathChild}
    (h : appendSyntheticChild dictionary rootClass path = some child) :
    child.path = path ∧ Resolves dictionary rootClass child := by
  unfold appendSyntheticChild at h
  dsimp only at h
  split_ifs at h with hempty
  rw [← Option.some.inj h, makeChild]
  cases hlast : (tryResolve dictionary rootClass (parsePathPrefix path).2).getLast? with
  | none =>
    rw [List.getLast?_eq_none_iff] at hlast
    rw [hlast] at hempty
    contradiction
  | some level => exact ⟨rfl, level, hlast, rfl⟩

theorem syntheticPaths_sublist (paths : List String) :
    ((paths.filterMap (appendSyntheticChild dictionary rootClass)).map (·.path)).Sublist paths := by
  induction paths with
  | nil => exact .slnil
  | cons path paths ih =>
    rw [List.filterMap_cons]
    cases hchild : appendSyntheticChild dictionary rootClass path with
    | none => exact ih.cons path
    | some child =>
      rw [List.map_cons, (appendSyntheticChild_spec hchild).1]
      exact ih.cons_cons path

/-- Children whose paths have been resolved, each once. -/
def Synthetic (dictionary : Dictionary) (rootClass : TClass) (children : List SemanticPathChild) :
    Prop :=
  ∃ paths : List String, paths.Nodup ∧
    children = paths.filterMap (appendSyntheticChild dictionary rootClass)

theorem Synthetic.resolves {children : List SemanticPathChild}
    (h : Synthetic dictionary rootClass children) :
    ∀ child ∈ children, Resolves dictionary rootClass child := by
  obtain ⟨paths, -, rfl⟩ := h
  intro child hchild
  obtain ⟨path, -, hpath⟩ := List.mem_filterMap.mp hchild
  exact (appendSyntheticChild_spec hpath).2

theorem Synthetic.distinct {children : List SemanticPathChild}
    (h : Synthetic dictionary rootClass children) : (children.map (·.path)).Nodup := by
  obtain ⟨paths, hpaths, rfl⟩ := h
  exact hpaths.sublist (syntheticPaths_sublist paths)

theorem synthetic_nil : Synthetic dictionary rootClass [] := ⟨[], List.nodup_nil, rfl⟩

/-- The paths below one path differ in their last part. -/
theorem synthetic_map (canonical : String) {names : List String} (hnames : names.Nodup) :
    Synthetic dictionary rootClass (names.filterMap fun name =>
      appendSyntheticChild dictionary rootClass (canonical ++ name)) := by
  refine ⟨names.map (canonical ++ ·), ?_, ?_⟩
  · refine hnames.map fun name other hsame => ?_
    exact String.toList_inj.mp (@List.append_cancel_left _ canonical.toList _ _ (by
      rw [← String.toList_append, ← String.toList_append, hsame]))
  · rw [List.filterMap_map]
    rfl

theorem describeMembers_synthetic (canonical : String) (target : Option TClass) :
    Synthetic dictionary rootClass (describeMembers dictionary rootClass canonical target).2 := by
  cases target with
  | none => exact synthetic_nil
  | some klass =>
    exact synthetic_map (canonical ++ "/") (collectImmediateMemberNames_nodup dictionary klass)

theorem describeContainer_synthetic {canonical : String} {terminal : PathLevel}
    {result : Bool × List SemanticPathChild}
    (h : describeContainer dictionary rootClass canonical terminal = .ok result) :
    Synthetic dictionary rootClass result.2 := by
  have hpair : ["/key", "/value"].Nodup := by decide
  have hvalue : ["/value"].Nodup := List.nodup_singleton _
  rw [describeContainer] at h
  by_cases hmap : isAssociativeContainerType terminal.type = true
  · rw [if_pos hmap] at h
    rw [← Except.ok.inj h]
    exact synthetic_map canonical hpair
  rw [if_neg hmap] at h
  cases hprimitive : isPrimitiveType (innerType dictionary terminal) with
  | error e =>
    rw [hprimitive] at h
    cases h
  | ok isPrimitive =>
    rw [hprimitive] at h
    dsimp only at h
    split at h
    · rw [← Except.ok.inj h]
      exact synthetic_map canonical hvalue
    · rw [← Except.ok.inj h]
      exact describeMembers_synthetic canonical terminal.elementClass

/-- The path ends at a fixed array of primitives or strings. -/
def endsAtValueArray (dictionary : Dictionary) (rootClass : TClass) (fields : List String) : Bool :=
  (tryResolve dictionary rootClass fields).getLast?.any fun terminal =>
    terminal.fixedArray.isSome && (terminal.isPrimitive || terminal.isString)

/-- **The children of a path**: resolved ones, but for the child of a value array. -/
theorem describeSemanticPath_children {fields : List String} {rawPath : String}
    {result : Bool × List SemanticPathChild}
    (h : describeSemanticPath dictionary rootClass fields rawPath = .ok result) :
    Synthetic dictionary rootClass result.2 ∨
      endsAtValueArray dictionary rootClass fields = true ∧
        ∃ canonical terminal, normalizePath rawPath = .ok canonical ∧
          (tryResolve dictionary rootClass fields).getLast? = some terminal ∧
            result.2 = [arrayChild canonical terminal] := by
  unfold describeSemanticPath at h
  split at h
  · contradiction
  rename_i canonical hcanonical
  split at h
  · rw [← Except.ok.inj h]
    exact Or.inl (describeMembers_synthetic canonical _)
  split at h
  · rw [← Except.ok.inj h]
    exact Or.inl synthetic_nil
  rename_i terminal hterminal
  split at h
  · rw [← Except.ok.inj h]
    exact Or.inl synthetic_nil
  split at h
  · rename_i harray
    split at h
    · rename_i hvalue
      refine Or.inr ⟨?_, canonical, terminal, hcanonical, hterminal, ?_⟩
      · rw [endsAtValueArray, hterminal, Option.any_some, harray, hvalue]
        rfl
      · rw [← Except.ok.inj h]
    · rw [← Except.ok.inj h]
      exact Or.inl (describeMembers_synthetic canonical _)
  split at h
  · exact Or.inl (describeContainer_synthetic h)
  · rw [← Except.ok.inj h]
    exact Or.inl (describeMembers_synthetic canonical _)

/-- Only the empty text has no canonical path. -/
theorem fields_of_error {rawPath : String} {e : String} (h : normalizePath rawPath = .error e) :
    (parsePathPrefix rawPath).2 = [] := by
  unfold normalizePath at h
  cases hchars : rawPath.toList with
  | nil =>
    rw [parsePathPrefix_eq, hchars]
    rfl
  | cons c rest =>
    rw [hchars] at h
    cases h

/-- A value array has the one child. -/
theorem describeSemanticPath_array {rawPath : String}
    (harray : endsAtValueArray dictionary rootClass (parsePathPrefix rawPath).2 = true) :
    ∃ canonical terminal, normalizePath rawPath = .ok canonical ∧
      (tryResolve dictionary rootClass (parsePathPrefix rawPath).2).getLast? = some terminal ∧
        describeSemanticPath dictionary rootClass (parsePathPrefix rawPath).2 rawPath =
          .ok (true, [arrayChild canonical terminal]) := by
  have hfields : (parsePathPrefix rawPath).2 ≠ [] := by
    intro hnil
    rw [endsAtValueArray, hnil] at harray
    cases harray
  rw [endsAtValueArray] at harray
  cases hterminal : (tryResolve dictionary rootClass (parsePathPrefix rawPath).2).getLast? with
  | none =>
    rw [hterminal] at harray
    contradiction
  | some terminal =>
    rw [hterminal, Option.any_some, Bool.and_eq_true] at harray
    cases hcanonical : normalizePath rawPath with
    | error e => exact absurd (fields_of_error hcanonical) hfields
    | ok canonical =>
      refine ⟨canonical, terminal, rfl, rfl, ?_⟩
      have hsomeField : (parsePathPrefix rawPath).2.isEmpty = false := by
        simpa using hfields
      have hsome : terminal.fixedArray.isNone = false := by
        rw [← Option.not_isSome, harray.1]
        rfl
      unfold describeSemanticPath
      simp only [hcanonical, hsomeField, hterminal, hsome, harray.1, harray.2, Bool.and_false,
        Bool.false_and, if_true, if_false, Bool.false_eq_true]

end Listed

/-! ### Discovery is sound -/

section Sound

variable (dictionary : Dictionary) (rootClass : TClass) (rawPath : String)

/-- What the children of a path have to be: paths that resolve to a level of the kind they are
    described with, each once, and none of a member that a derived class shadows; and the walks
    over the bases end. -/
structure DiscoverySound : Prop where
  resolves : ∀ result,
    describeSemanticPath dictionary rootClass (parsePathPrefix rawPath).2 rawPath = .ok result →
      ∀ child ∈ result.2, Resolves dictionary rootClass child
  distinct : ∀ result,
    describeSemanticPath dictionary rootClass (parsePathPrefix rawPath).2 rawPath = .ok result →
      (result.2.map (·.path)).Nodup
  unshadowed : ∀ result,
    describeSemanticPath dictionary rootClass (parsePathPrefix rawPath).2 rawPath = .ok result →
      ∀ child ∈ result.2, ∀ level,
        (tryResolve dictionary rootClass (parsePathPrefix child.path).2).getLast? = some level →
          NamesUnshadowed dictionary rootClass (parsePathPrefix child.path).2 level
  walkEnds : ∀ klass depth, dictionary.classes.length + 2 ≤ depth →
    collectMemberNames dictionary depth klass [] [] =
      some (collectImmediateMemberNames dictionary klass)
  searchEnds : ∀ klass field depth, dictionary.classes.length + 1 ≤ depth →
    findStreamerField dictionary field depth klass [] =
      findStreamerField dictionary field (dictionary.classes.length + 1) klass []

/-- The class behind a value array has a field `value` of the kind of its elements. -/
def HasValueField : Prop :=
  ∃ state terminal next level,
    resolveTo dictionary rootClass (parsePathPrefix rawPath).2 = .ok state ∧
      state.levels.getLast? = some terminal ∧
      resolveField dictionary false state "value" true = .ok next ∧
      next.levels.getLast? = some level ∧
      childKind level.toPathLevel = if terminal.isString then .string else .primitive

variable {dictionary rootClass rawPath}

/-- The child of a value array resolves just when there is such a field. -/
theorem arrayChild_resolves_iff
    (harray : endsAtValueArray dictionary rootClass (parsePathPrefix rawPath).2 = true)
    {canonical : String} {terminal : PathLevel} (hcanonical : normalizePath rawPath = .ok canonical)
    (hterminal :
      (tryResolve dictionary rootClass (parsePathPrefix rawPath).2).getLast? = some terminal) :
    Resolves dictionary rootClass (arrayChild canonical terminal) ↔
      HasValueField dictionary rootClass rawPath := by
  obtain ⟨state, resolved, hstate, hresolved, rfl⟩ := exists_state hterminal
  have hfields : (parsePathPrefix rawPath).2 ≠ [] := by
    intro hnil
    rw [hnil] at hterminal
    cases hterminal
  have hfixed : resolved.fixedArray.isSome = true := by
    rw [endsAtValueArray, hterminal, Option.any_some, Bool.and_eq_true] at harray
    exact harray.1
  have hlast : (tryResolve dictionary rootClass
      (parsePathPrefix (arrayChild canonical resolved.toPathLevel).path).2).getLast? =
        match resolveField dictionary false state "value" true with
        | .error _ => none
        | .ok next => next.levels.getLast?.map (·.toPathLevel) := by
    rw [← resolveFields_extend hstate hresolved hfixed, tryResolve_getLast?, arrayChild,
      parsePathPrefix_child hcanonical hfields]
    rfl
  rw [Resolves, hlast]
  constructor
  · rintro ⟨level, hlevel, hkind⟩
    cases hnext : resolveField dictionary false state "value" true with
    | error e =>
      rw [hnext] at hlevel
      cases hlevel
    | ok next =>
      rw [hnext] at hlevel
      obtain ⟨found, hfound, rfl⟩ := Option.map_eq_some_iff.mp hlevel
      exact ⟨state, resolved, next, found, hstate, hresolved, hnext, hfound, hkind⟩
  · rintro ⟨other, terminal, next, level, hother, hterminal', hnext, hlevel, hkind⟩
    obtain rfl := Except.ok.inj (hstate.symm.trans hother)
    obtain rfl := Option.some.inj (hresolved.symm.trans hterminal')
    refine ⟨level.toPathLevel, ?_, hkind⟩
    rw [hnext]
    exact Option.map_eq_some_iff.mpr ⟨level, hlevel, rfl⟩

theorem discovery_sound_iff :
    DiscoverySound dictionary rootClass rawPath ↔
      (endsAtValueArray dictionary rootClass (parsePathPrefix rawPath).2 = true →
        HasValueField dictionary rootClass rawPath) := by
  constructor
  · intro hsound harray
    obtain ⟨canonical, terminal, hcanonical, hterminal, hresult⟩ :=
      describeSemanticPath_array harray
    refine (arrayChild_resolves_iff harray hcanonical hterminal).mp ?_
    exact hsound.resolves _ hresult _ List.mem_cons_self
  · intro hvalue
    refine ⟨fun result hresult => ?_, fun result hresult => ?_,
      fun result hresult child hchild level hlevel => tryResolve_unshadowed hlevel,
      fun klass depth hdepth => collectMemberNames_eq klass hdepth,
      fun klass field depth hdepth => findStreamerField_depth onTheWay_nil hdepth le_rfl⟩
    · rcases describeSemanticPath_children hresult with
        hsynthetic | ⟨harray, canonical, terminal, hcanonical, hterminal, hone⟩
      · exact hsynthetic.resolves
      · intro child hchild
        rw [hone] at hchild
        rw [List.mem_singleton.mp hchild]
        exact (arrayChild_resolves_iff harray hcanonical hterminal).mpr (hvalue harray)
    · rcases describeSemanticPath_children hresult with hsynthetic | ⟨-, _, _, -, -, hone⟩
      · exact hsynthetic.distinct
      · rw [hone]
        exact List.nodup_singleton _

end Sound

/-- An event with an array `Double_t e[3]`. -/
def energyArray : Dictionary where
  classes := [
    { name := "Event", size := 32
      members := some [
        { name := "e", typeName := "Double_t", type := 28, maxIndex := [3], offset := 8 }] }]
  getClass := fun _ => none

/-- The described child `/Event/e/value` does not resolve. -/
theorem energyArray_value_unresolved : ¬ DiscoverySound energyArray 0 "/Event/e" := by
  intro hsound
  have hchildren : describeSemanticPath energyArray 0 (parsePathPrefix "/Event/e").2 "/Event/e" =
      .ok (true, [{ path := "/Event/e/value", name := "value", kind := .primitive
                    rootType := "Double_t", isPrimitive := true }]) := by
    decide +kernel
  obtain ⟨level, hlevel, -⟩ := hsound.resolves _ hchildren _ List.mem_cons_self
  have hnone : (tryResolve energyArray 0 (parsePathPrefix "/Event/e/value").2).isEmpty := by
    decide +kernel
  rw [List.isEmpty_iff.mp hnone] at hlevel
  cases hlevel

end RootLake.Direct

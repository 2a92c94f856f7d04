import RootLake.Reader.PathResolver

/-!
# How the levels of a path follow each other

`LevelChain` is what the loop of `ResolvePath` leaves behind: each level is a member of the
class reached so far, or the `value` of the container in front of it. A level that another
one follows has a class (`LevelChain.descends`), and a container has the class of its
collection.
-/

namespace RootLake

open SemanticTypes

variable {dictionary : Dictionary} {strictLayout : Bool}

/-- The field is the value of the container in front of it, and no member of a class. -/
def IsValueStep (last : ResolvedLevel) (field : String) : Prop :=
  field = "value" ∧ last.isContainer = true ∧ isAssociativeContainerType last.type = false

/-- The levels behind a level, found in the class that is reached with it. -/
inductive LevelChain (dictionary : Dictionary) (strictLayout : Bool) :
    Option ResolvedLevel → Option TClass → List ResolvedLevel → Prop
  | nil {last klass} : LevelChain dictionary strictLayout last klass []
  | member {last klass field streamerField cumulative member offset level rest} :
      (∀ container, last = some container → ¬ IsValueStep container field) →
      findStreamerField dictionary streamerField (dictionary.classes.length + 1) klass [] =
        some (member, offset) →
      memberLevel dictionary strictLayout field cumulative member offset = .ok level →
      LevelChain dictionary strictLayout (some level) (nextClass level).2 rest →
      LevelChain dictionary strictLayout last (some klass) (level :: rest)
  | value {container klass level rest} :
      IsValueStep container "value" →
      valueLevel dictionary container = .ok level → (rest ≠ [] → level.klass.isSome = true) →
      LevelChain dictionary strictLayout (some level)
        (if level.isContainer then level.elementClass else level.klass) rest →
      LevelChain dictionary strictLayout (some container) klass (level :: rest)

/-! ### What a level is made of -/

/-- The class of a container is that of a collection, and its elements are of the value class. -/
def CollectionLevel (dictionary : Dictionary) (level : ResolvedLevel) : Prop :=
  level.isContainer = (containerClass dictionary level.klass).1 ∧
    level.elementClass = (containerClass dictionary level.klass).2

theorem memberLevel_collection {field : String} {cumulative offset : Int}
    {member : StreamerMember} {level : ResolvedLevel}
    (h : memberLevel dictionary strictLayout field cumulative member offset = .ok level) :
    CollectionLevel dictionary level ∧ level.name = field := by
  unfold memberLevel at h
  split at h
  · cases h
  split at h
  · cases h
  dsimp only at h
  split at h
  · cases h
  split at h
  · cases h
  · cases h
    exact ⟨⟨rfl, rfl⟩, rfl⟩

theorem valueLevel_collection {container level : ResolvedLevel}
    (h : valueLevel dictionary container = .ok level) :
    CollectionLevel dictionary level ∧ level.name = "value" ∧ level.fixedArray = none ∧
      level.isPointer = false ∧ level.offsetInParent = 0 := by
  unfold valueLevel at h
  dsimp only at h
  split at h
  · cases h
  split at h
  · cases h
  · cases h
    exact ⟨⟨rfl, rfl⟩, rfl, rfl, rfl, rfl⟩

/-! ### The loop builds a chain -/

/-- What a field adds to the chain, whatever follows it. -/
theorem resolveField_chain {state next : ResolveState} {field : String} {terminal : Bool}
    (h : resolveField dictionary strictLayout state field terminal = .ok next) :
    ∃ level, next.levels = state.levels ++ [level] ∧ level.name = field ∧
      ∀ rest, (terminal = true → rest = []) →
        LevelChain dictionary strictLayout (some level) next.currentClass rest →
        LevelChain dictionary strictLayout state.levels.getLast? state.currentClass
          (level :: rest) := by
  have hmember (hstep : ∀ container, state.levels.getLast? = some container →
        ¬ IsValueStep container field)
      (h : resolveMember dictionary strictLayout state field = .ok next) :
      ∃ level, next.levels = state.levels ++ [level] ∧ level.name = field ∧
        ∀ rest, (terminal = true → rest = []) →
          LevelChain dictionary strictLayout (some level) next.currentClass rest →
          LevelChain dictionary strictLayout state.levels.getLast? state.currentClass
            (level :: rest) := by
    unfold resolveMember at h
    split at h
    · cases h
    rename_i klass hklass
    split at h
    · cases h
    rename_i member offset hfind
    split at h
    · cases h
    rename_i level hlevel
    split at h
    · cases h
    · cases h
      refine ⟨level, rfl, (memberLevel_collection hlevel).2, fun rest _ hrest => ?_⟩
      rw [hklass]
      exact .member hstep hfind hlevel hrest
  unfold resolveField at h
  split at h
  next hlast => exact hmember (fun container hcontainer => by rw [hlast] at hcontainer; cases hcontainer) h
  next last hlast =>
    split at h
    next hvalue =>
      simp only [Bool.and_eq_true, decide_eq_true_eq, Bool.not_eq_true'] at hvalue
      unfold resolveValue at h
      split at h
      · cases h
      rename_i level hlevel
      split at h
      · cases h
      rename_i hterminal
      cases h
      refine ⟨level, rfl, (valueLevel_collection hlevel).2.1.trans hvalue.1.1.symm,
        fun rest hrest hchain => ?_⟩
      rw [hlast]
      refine .value ⟨rfl, hvalue.1.2, hvalue.2⟩ hlevel (fun hne => ?_) hchain
      cases hklass : level.klass with
      | some klass => rfl
      | none =>
        have hopen : terminal = false := by
          by_contra htrue
          exact hne (hrest (by simpa using htrue))
        simp [hopen, hklass] at hterminal
    next hvalue =>
      refine hmember (fun container hcontainer hstep => hvalue ?_) h
      rw [hlast] at hcontainer
      cases hcontainer
      simp only [Bool.and_eq_true, decide_eq_true_eq, Bool.not_eq_true']
      exact ⟨⟨hstep.1, hstep.2.1⟩, hstep.2.2⟩

theorem resolveFields_chain (fields : List String) : ∀ {state last : ResolveState},
    resolveFields dictionary strictLayout fields state = .ok last →
    ∃ added, last.levels = state.levels ++ added ∧ added.map (·.name) = fields ∧
      LevelChain dictionary strictLayout state.levels.getLast? state.currentClass added := by
  induction fields with
  | nil =>
    intro state last h
    cases h
    exact ⟨[], (List.append_nil _).symm, rfl, .nil⟩
  | cons field fields ih =>
    intro state last h
    rw [resolveFields] at h
    cases hfield : resolveField dictionary strictLayout state field fields.isEmpty with
    | error e =>
      rw [hfield] at h
      cases h
    | ok next =>
      rw [hfield] at h
      obtain ⟨level, hlevels, hname, hchain⟩ := resolveField_chain hfield
      obtain ⟨added, hadded, hnames, hrest⟩ := ih h
      refine ⟨level :: added, ?_, by rw [List.map_cons, hname, hnames], ?_⟩
      · rw [hadded, hlevels, List.append_assoc, List.singleton_append]
      · refine hchain added (fun hterminal => ?_) ?_
        · rw [List.isEmpty_iff.mp hterminal] at hnames
          exact List.map_eq_nil_iff.mp hnames
        · rwa [hlevels, List.getLast?_concat] at hrest

/-- The levels of a resolved path are a chain from its class, one for each field. -/
theorem resolvePath_chain {rootClass : TClass} {fields : List String}
    {levels : List ResolvedLevel}
    (h : resolvePath dictionary rootClass fields strictLayout = .ok levels) :
    levels ≠ [] ∧ levels.map (·.name) = fields ∧
      LevelChain dictionary strictLayout none (some rootClass) levels := by
  unfold resolvePath at h
  split at h
  · cases h
  split at h
  · cases h
  rename_i state hstate
  split at h
  · cases h
  rename_i hne
  cases h
  obtain ⟨added, hadded, hnames, hchain⟩ := resolveFields_chain fields hstate
  rw [List.nil_append] at hadded
  refine ⟨fun hnil => hne (List.isEmpty_iff.mpr hnil), ?_⟩
  rw [hadded]
  exact ⟨hnames, hchain⟩

/-! ### Levels of a chain -/

theorem CollectionLevel.klass {level : ResolvedLevel} (h : CollectionLevel dictionary level)
    (hc : level.isContainer = true) :
    ∃ klass, level.klass = some klass ∧
      (dictionary.info klass).valueClass = some level.elementClass := by
  obtain ⟨hcontainer, helement⟩ := h
  rw [hc, containerClass] at hcontainer
  rw [containerClass] at helement
  cases hklass : level.klass with
  | none =>
    rw [hklass] at hcontainer
    cases hcontainer
  | some klass =>
    rw [hklass, Option.bind_some] at hcontainer helement
    cases hvalue : (dictionary.info klass).valueClass with
    | none =>
      rw [hvalue] at hcontainer
      cases hcontainer
    | some valueClass =>
      rw [hvalue] at helement
      exact ⟨klass, rfl, hvalue.trans (congrArg some helement.symm)⟩

/-- A level behind which the path goes on has a class. -/
theorem klass_of_nextClass {level : ResolvedLevel} (h : CollectionLevel dictionary level)
    {klass : TClass} (hnext : (nextClass level).2 = some klass) : level.klass.isSome = true := by
  unfold nextClass at hnext
  split at hnext
  next => exact Option.isSome_iff_exists.mpr ⟨klass, hnext⟩
  next =>
    split at hnext
    next hc =>
      obtain ⟨klass, hklass, -⟩ := h.klass hc
      rw [hklass]
      rfl
    next =>
      split at hnext
      next => exact Option.isSome_iff_exists.mpr ⟨klass, hnext⟩
      next =>
        split at hnext
        next => exact Option.isSome_iff_exists.mpr ⟨klass, hnext⟩
        next => cases hnext

/-- Every level of a chain is one of the two kinds. -/
theorem LevelChain.collection {last : Option ResolvedLevel} {klass : Option TClass}
    {levels : List ResolvedLevel} (h : LevelChain dictionary strictLayout last klass levels) :
    ∀ level ∈ levels, CollectionLevel dictionary level := by
  induction h with
  | nil => exact fun _ h => absurd h List.not_mem_nil
  | member _ _ hlevel _ ih =>
    intro level hmem
    rcases List.mem_cons.mp hmem with rfl | hmem
    · exact (memberLevel_collection hlevel).1
    · exact ih level hmem
  | value _ hlevel _ _ ih =>
    intro level hmem
    rcases List.mem_cons.mp hmem with rfl | hmem
    · exact (valueLevel_collection hlevel).1
    · exact ih level hmem

/-- The level in front of a chain that goes on has a class, if it was resolved at all. -/
theorem LevelChain.head_klass {level next : ResolvedLevel} {rest : List ResolvedLevel}
    {klass : Option TClass}
    (h : LevelChain dictionary strictLayout (some level) klass (next :: rest))
    (hcollection : CollectionLevel dictionary level)
    (hklass : ∀ k, klass = some k → level.klass.isSome = true) : level.klass.isSome = true := by
  cases h with
  | member _ _ _ _ => exact hklass _ rfl
  | value hstep _ _ _ =>
    obtain ⟨k, hk, -⟩ := hcollection.klass hstep.2.1
    rw [hk]
    rfl

theorem LevelChain.descends {last : Option ResolvedLevel} {klass : Option TClass}
    {levels : List ResolvedLevel} (h : LevelChain dictionary strictLayout last klass levels) :
    ∀ level ∈ levels.dropLast, level.klass.isSome = true := by
  induction h with
  | nil => exact fun _ h => absurd h List.not_mem_nil
  | @member _ _ _ _ _ _ _ level rest _ _ hlevel hrest ih =>
    cases rest with
    | nil => exact fun _ h => absurd h List.not_mem_nil
    | cons next rest =>
      intro other hmem
      rw [List.dropLast_cons_cons] at hmem
      rcases List.mem_cons.mp hmem with rfl | hmem
      · have hcollection := (memberLevel_collection hlevel).1
        exact hrest.head_klass hcollection fun k hk => klass_of_nextClass hcollection hk
      · exact ih other hmem
  | @value _ _ level rest _ hlevel hklass hrest ih =>
    cases rest with
    | nil => exact fun _ h => absurd h List.not_mem_nil
    | cons next rest =>
      intro other hmem
      rw [List.dropLast_cons_cons] at hmem
      rcases List.mem_cons.mp hmem with rfl | hmem
      · exact hklass (List.cons_ne_nil _ _)
      · exact ih other hmem

end RootLake

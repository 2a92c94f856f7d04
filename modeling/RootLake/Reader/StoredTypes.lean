import RootLake.Reader.DepthLaw

/-!
# What a traversal reads

`Stored` is what an object holds: its members where the compiler has laid them out, the
elements of its collections, and what its pointers lead to, each with its class and the name
of its type. A traversal reads the values it emits at such places, with their types
(`reads_stored`), as long as no level asks for two steps at once (`WellStored`): an array of
collections, an array of pointers, or a pointer to a collection whose elements are looked up
in the class of the collection.
-/

namespace RootLake

open SemanticTypes Batch

section

variable (dictionary : Dictionary) (mem : RootMemory) (hasPointers : TClass → Bool)
variable (strictLayout : Bool)

/-! ### Places -/

/-- One element of a member at an address. The elements of a fixed array stand one behind the
    other, and so do pointers. -/
def IsPlace (level : PathLevel) (address element : Address) : Prop :=
  ∃ i : Nat, (match level.fixedArray with
      | some array => i < array.length
      | none => i = 0) ∧
    element = if level.isPointer then mem.pointer (address + 8 * i)
      else address + i * level.elementSize

/-- The type of a container's elements, and their class. -/
def valueTypeOf (elementClass : Option TClass) (type : String) : String :=
  match elementClass with
  | some klass => (dictionary.info klass).name
  | none => extractInnerType type

def valueKlassOf (elementClass : Option TClass) (type : String) : Option TClass :=
  elementClass.orElse fun _ =>
    if (valueTypeOf dictionary elementClass type).isEmpty then none
    else dictionary.getClass (valueTypeOf dictionary elementClass type)

/-- The object at `root` holds something of this class and type at an address. The elements of
    a collection of pointers are not in the collection. -/
inductive Stored (rootClass : TClass) (root : Address) : Address → Option TClass → String → Prop
  | root : Stored rootClass root root (some rootClass) (dictionary.info rootClass).name
  | member {address klass type field streamerField cumulative member offset level element} :
      Stored rootClass root address (some klass) type →
      findStreamerField dictionary streamerField (dictionary.classes.length + 1) klass [] =
        some (member, offset) →
      memberLevel dictionary strictLayout field cumulative member offset = .ok level →
      IsPlace mem level.toPathLevel (address + level.offsetInParent) element →
      Stored rootClass root element level.klass level.type
  | element {address klass type valueClass element elementType} :
      Stored rootClass root address (some klass) type →
      (dictionary.info klass).valueClass = some valueClass → hasPointers klass = false →
      element ∈ mem.elements klass address →
      elementType = valueTypeOf dictionary valueClass type ∨
        elementType = extractInnerType type →
      Stored rootClass root element (valueKlassOf dictionary valueClass type) elementType

/-- Reading what is stored succeeds, and the elements of a `std::vector` are equally far from
    each other. -/
structure TypedMemory (rootClass : TClass) (root : Address) : Prop where
  primitive : ∀ {address klass type},
    Stored dictionary mem hasPointers strictLayout rootClass root address klass type →
      ∃ value, mem.primitive address type = .ok value
  string : ∀ {address klass type},
    Stored dictionary mem hasPointers strictLayout rootClass root address klass type →
      ∃ value, mem.string address type = .ok value
  contiguous : ∀ {address klass type},
    Stored dictionary mem hasPointers strictLayout rootClass root address (some klass) type →
      mem.isContiguousVectorType type = true → ∀ i < (mem.elements klass address).length,
        (mem.elements klass address).getD i 0 = (mem.elements klass address).getD 0 0 +
          i * ((mem.elements klass address).getD 1 0 - (mem.elements klass address).getD 0 0)

/-- No level asks for two steps at once. -/
def WellStored : List ResolvedLevel → Prop
  | [] => True
  | level :: rest =>
      level.SingleLoop ∧
      (level.isPointer = true → ∀ array, level.fixedArray = some array → array.length = 1) ∧
      (level.isContainer = true → ∀ klass, level.klass = some klass → hasPointers klass = false) ∧
      (level.isPointer = true → level.isContainer = true →
        ∀ next ∈ rest.head?, IsValueStep level next.name) ∧
      WellStored rest

end

section

variable {dictionary : Dictionary} {mem : RootMemory} {hasPointers : TClass → Bool}
variable {strictLayout : Bool} {rootClass : TClass} {root : Address}

theorem valueLevel_stored {container level : ResolvedLevel}
    (h : valueLevel dictionary container = .ok level) :
    level.type = valueTypeOf dictionary container.elementClass container.type ∧
      level.klass = valueKlassOf dictionary container.elementClass container.type := by
  unfold valueLevel at h
  dsimp only at h
  split at h
  · cases h
  split at h
  · cases h
  · cases h
    exact ⟨rfl, rfl⟩

/-! ### Elements of a container -/

/-- What the traversal checks of a vector it steps through by itself. -/
theorem prepareContainerAccess_eq_some {level : PathLevel} {elements : List Address}
    {base : Address} {stride : Nat}
    (h : prepareContainerAccess mem level elements = some (base, stride)) :
    mem.isContiguousVectorType level.type = true ∧ base = elements.getD 0 0 ∧
      (1 < elements.length → elements.getD 1 0 = base + stride) := by
  unfold prepareContainerAccess at h
  split at h
  next => cases h
  next hvector =>
    simp only [Bool.or_eq_true, Bool.not_eq_true', not_or, Bool.not_eq_false] at hvector
    dsimp only at h
    split at h
    next => cases h
    next =>
      generalize hstride : (if mem.primitiveTypeSize _ = 0 then _ else _ : Nat) = width at h
      split at h
      next => cases h
      next =>
        split at h
        next => cases h
        next hsecond =>
          cases h
          refine ⟨hvector.2, rfl, fun hlength => ?_⟩
          simp only [gt_iff_lt, hlength, decide_true, Bool.true_and, Bool.or_eq_true, not_or,
            decide_eq_true_eq, Decidable.not_not] at hsecond
          exact hsecond.2

/-- The address the traversal computes is that of the element. -/
theorem elementAt_eq (typed : TypedMemory dictionary mem hasPointers strictLayout rootClass root)
    {level : PathLevel} {klass : TClass} {field : Address}
    (hstored : Stored dictionary mem hasPointers strictLayout rootClass root field (some klass)
      level.type) {i : Nat} (hi : i < (mem.elements klass field).length) :
    elementAt mem level (mem.elements klass field) i = (mem.elements klass field).getD i 0 := by
  unfold elementAt
  split
  next base stride haccess =>
    obtain ⟨hvector, rfl, hsecond⟩ := prepareContainerAccess_eq_some haccess
    have heven := typed.contiguous hstored hvector i hi
    rcases Nat.eq_zero_or_pos i with rfl | hpos
    · simp
    · rw [heven, hsecond (by omega), add_sub_cancel_left]
  next => rfl

/-! ### Going down a path -/

/-- What is at the address a level starts from: an object of the class it was found in, or the
    element it is the value of. -/
structure Enters (dictionary : Dictionary) (mem : RootMemory) (hasPointers : TClass → Bool)
    (strictLayout : Bool) (rootClass : TClass) (root : Address) (last : Option ResolvedLevel)
    (klass : Option TClass) (address : Address) : Prop where
  object : (∀ l, last = some l → l.isPointer = true → l.isContainer = false) →
    ∀ k, klass = some k →
      ∃ type, Stored dictionary mem hasPointers strictLayout rootClass root address (some k) type
  value : ∀ container, last = some container → container.isContainer = true →
    Stored dictionary mem hasPointers strictLayout rootClass root address
      (valueKlassOf dictionary container.elementClass container.type)
      (valueTypeOf dictionary container.elementClass container.type)

/-- Every address the traversal goes on with at a level is one of the level's places. -/
def StoredAt (dictionary : Dictionary) (mem : RootMemory) (hasPointers : TClass → Bool)
    (strictLayout : Bool) (rootClass : TClass) (root : Address) (level : ResolvedLevel)
    (address : Address) : Prop :=
  ∀ field, Passes mem level.toPathLevel address field →
    match level.fixedArray with
    | some array => ∀ i < array.length,
        Stored dictionary mem hasPointers strictLayout rootClass root
          (field + (i : Nat) * level.elementSize) level.klass level.type
    | none => Stored dictionary mem hasPointers strictLayout rootClass root field level.klass
        level.type

theorem storedAt_member {address : Address} {klass : TClass} {type field streamerField : String}
    {cumulative offset : Int} {member : StreamerMember} {level : ResolvedLevel}
    (hobject : Stored dictionary mem hasPointers strictLayout rootClass root address (some klass)
      type)
    (hfind : findStreamerField dictionary streamerField (dictionary.classes.length + 1) klass [] =
      some (member, offset))
    (hlevel : memberLevel dictionary strictLayout field cumulative member offset = .ok level)
    (hpointers : level.isPointer = true → ∀ array, level.fixedArray = some array →
      array.length = 1) :
    StoredAt dictionary mem hasPointers strictLayout rootClass root level address := by
  intro place hpass
  have hplace (i : Nat) : (level.isPointer = true → i = 0) →
      (match level.fixedArray with
        | some array => i < array.length
        | none => i = 0) →
      IsPlace mem level.toPathLevel (address + level.offsetInParent)
        (place + (i : Int) * level.elementSize) := by
    intro hzero hi
    refine ⟨i, hi, ?_⟩
    have hfield := hpass.field_eq
    cases hp : level.isPointer with
    | true =>
      obtain rfl := hzero hp
      have hnull := hpass.pointer
      simp only [hp, Bool.true_and, decide_eq_false_iff_not] at hnull
      simp only [fieldAddress, hp, if_true] at hfield
      split at hfield
      next => exact absurd hfield.symm hnull
      next => simp [← hfield]
    | false =>
      simp only [fieldAddress, hp, Bool.false_eq_true, if_false] at hfield
      simp [← hfield]
  split
  next array ha =>
    intro i hi
    refine .member hobject hfind hlevel (hplace i (fun hp => ?_) ?_)
    · have := hpointers hp array ha
      omega
    · simpa only [ha] using hi
  next ha =>
    have hzero := hplace 0 (fun _ => rfl) (by simp only [ha])
    rw [Int.natCast_zero, Int.zero_mul, Int.add_zero] at hzero
    exact .member hobject hfind hlevel hzero

theorem storedAt_value {address : Address} {container level : ResolvedLevel}
    (hvalue : Stored dictionary mem hasPointers strictLayout rootClass root address
      (valueKlassOf dictionary container.elementClass container.type)
      (valueTypeOf dictionary container.elementClass container.type))
    (hlevel : valueLevel dictionary container = .ok level) :
    StoredAt dictionary mem hasPointers strictLayout rootClass root level address := by
  obtain ⟨-, -, harray, hpointer, hoffset⟩ := valueLevel_collection hlevel
  obtain ⟨htype, hklass⟩ := valueLevel_stored hlevel
  intro field hpass
  have hfield := hpass.field_eq
  simp only [fieldAddress, hpointer, Bool.false_eq_true, if_false, hoffset, Int.add_zero] at hfield
  simp only [harray]
  rw [← hfield, htype, hklass]
  exact hvalue

/-! ### Reads -/

/-- No value was read where none of its type is stored. -/
def ReadsStored (event : TraversalEvent) : Prop := ∀ error, event ≠ .fail (.read error)

theorem arrayCoordinates_no_read {dimensions : List Nat} {i : Nat} {e : TraversalError}
    (h : arrayCoordinates dimensions i = .error e) : ∀ error, e ≠ .read error := by
  induction dimensions generalizing e with
  | nil => cases h
  | cons d dimensions ih =>
    simp only [arrayCoordinates] at h
    cases hds : arrayCoordinates dimensions i with
    | error e' =>
      rw [hds] at h
      cases h
      exact ih hds
    | ok found =>
      rw [hds] at h
      simp only [bind, Except.bind] at h
      split_ifs at h
      all_goals
        cases h
        intro error h
        cases h

theorem pushArrayCoordinates_no_read {dimensions : List Nat} {i : Nat} {indices : List Int}
    {e : TraversalError} (h : pushArrayCoordinates i dimensions indices = .error e) :
    ReadsStored (.fail e) := by
  rintro error heq
  cases heq
  unfold pushArrayCoordinates at h
  split at h
  · split at h
    · cases h
    · cases h
  · cases hc : arrayCoordinates dimensions i with
    | error e' =>
      rw [hc] at h
      cases h
      exact arrayCoordinates_no_read hc _ rfl
    | ok found =>
      rw [hc] at h
      cases h

theorem checkedContainerIndex_no_read {i : Nat} {e : TraversalError}
    (h : checkedContainerIndex i = .error e) : ReadsStored (.fail e) := by
  rintro error heq
  cases heq
  unfold checkedContainerIndex at h
  split at h <;> cases h

/-- A value that is read without an error is a row. -/
theorem leafEvents_readsStored {leaf : Option (Except TraversalError SinkValue)}
    {indices : List Int} {names : List String} {event : TraversalEvent}
    (hleaf : ∀ read, leaf = some read → ∃ value, read = .ok value)
    (h : event ∈ leafEvents leaf indices names) : ReadsStored event := by
  match leaf with
  | none => exact absurd h List.not_mem_nil
  | some read =>
    obtain ⟨value, rfl⟩ := hleaf read rfl
    rw [List.mem_singleton.mp h]
    exact fun _ h => nomatch h

section

variable (typed : TypedMemory dictionary mem hasPointers strictLayout rootClass root)

include typed

theorem readNumber_stored {address : Address} {klass : Option TClass} {type : String}
    (h : Stored dictionary mem hasPointers strictLayout rootClass root address klass type) :
    ∃ value, readNumber mem address type = .ok value := by
  obtain ⟨value, hvalue⟩ := typed.primitive h
  exact ⟨.number value, by rw [readNumber, hvalue]⟩

theorem readString_stored {address : Address} {klass : Option TClass} {type : String}
    (h : Stored dictionary mem hasPointers strictLayout rootClass root address klass type) :
    ∃ value, readString mem address type = .ok value := by
  obtain ⟨value, hvalue⟩ := typed.string h
  exact ⟨.string value, by rw [readString, hvalue]⟩

/-- An element the traversal goes on with, at a level that opens a collection. -/
theorem element_stored {level : ResolvedLevel} {last : Bool} {field : Address}
    {elements : List Address} {i : Nat} (hcollection : CollectionLevel dictionary level)
    (hc : level.isContainer = true)
    (hpointers : ∀ klass, level.klass = some klass → hasPointers klass = false)
    (hstored : Stored dictionary mem hasPointers strictLayout rootClass root field level.klass
      level.type)
    (hopen : openContainer mem level.toPathLevel last field = some elements)
    (hi : i < elements.length) {elementType : String}
    (htype : elementType = valueTypeOf dictionary level.elementClass level.type ∨
      elementType = extractInnerType level.type) :
    Stored dictionary mem hasPointers strictLayout rootClass root
      (elementAt mem level.toPathLevel elements i)
      (valueKlassOf dictionary level.elementClass level.type) elementType := by
  obtain ⟨klass, hklass, hvalueClass⟩ := hcollection.klass hc
  have helements : elements = mem.elements klass field := by
    simp only [openContainer, hklass] at hopen
    split at hopen
    · exact (Option.some.inj hopen).symm
    · cases hopen
  subst helements
  rw [hklass] at hstored
  rw [elementAt_eq typed hstored hi]
  refine .element hstored hvalueClass (hpointers klass hklass) ?_ htype
  simp [List.getD, hi]

/-- One level: what it reads is stored, and so is what the levels below start from. -/
theorem level_reads (agrees : mem.Agrees dictionary) {level : ResolvedLevel}
    {rest : List ResolvedLevel} {address : Address}
    (hcollection : CollectionLevel dictionary level)
    (hat : StoredAt dictionary mem hasPointers strictLayout rootClass root level address)
    (hwell : WellStored hasPointers (level :: rest))
    (hbelow : ∀ below, Enters dictionary mem hasPointers strictLayout rootClass root (some level)
      (nextClass level).2 below → ∀ indices names event,
        Reached mem (rest.map (·.toPathLevel)) below indices names event → ReadsStored event)
    {indices : List Int} {names : List String} {event : TraversalEvent}
    (h : Reached mem ((level :: rest).map (·.toPathLevel)) address indices names event) :
    ReadsStored event := by
  obtain ⟨hsingle, -, hpointers, hpointerContainer, -⟩ := hwell
  -- Behind an element of an array or a field, the object is of the level's class.
  have henters {below : Address} (hc : level.isContainer = false)
      (hstored : Stored dictionary mem hasPointers strictLayout rootClass root below level.klass
        level.type) :
      Enters dictionary mem hasPointers strictLayout rootClass root (some level)
        (nextClass level).2 below := by
    refine ⟨fun _ k hk => ⟨level.type, ?_⟩, fun container hcontainer hopen => ?_⟩
    · have hklass : level.klass = some k := by
        unfold nextClass at hk
        rw [hc] at hk
        split at hk
        · exact hk
        rw [if_neg Bool.false_ne_true] at hk
        split at hk
        · exact hk
        split at hk
        · exact hk
        · cases hk
      rwa [hklass] at hstored
    · cases hcontainer
      rw [hc] at hopen
      cases hopen
  have hentersElement {below : Address} (ha : level.fixedArray = none)
      (hc : level.isContainer = true)
      (hstored : Stored dictionary mem hasPointers strictLayout rootClass root below
        (valueKlassOf dictionary level.elementClass level.type)
        (valueTypeOf dictionary level.elementClass level.type)) :
      Enters dictionary mem hasPointers strictLayout rootClass root (some level)
        (nextClass level).2 below := by
    refine ⟨fun hplain k hk => ?_, fun container hcontainer _ => ?_⟩
    · have hpointer : level.isPointer = false := by
        by_contra hne
        rw [Bool.not_eq_false] at hne
        have := hplain level rfl hne
        rw [hc] at this
        cases this
      have helement : level.elementClass = some k := by
        simpa only [nextClass, hpointer, hc, Bool.false_eq_true, if_false, if_true] using hk
      rw [helement] at hstored
      exact ⟨_, hstored⟩
    · cases hcontainer
      exact hstored
  rw [List.map_cons] at h
  generalize hrest : rest.map (·.toPathLevel) = below at h hbelow
  have hnotContainer {array : FixedArray} (ha : level.fixedArray = some array) :
      level.isContainer = false := by
    by_contra hne
    rw [Bool.not_eq_false] at hne
    have hnone := hsingle hne
    rw [ha] at hnone
    cases hnone
  cases h with
  | arrayFault _ _ _ hpush => exact pushArrayCoordinates_no_read hpush
  | containerFault _ _ _ _ _ hindex => exact checkedContainerIndex_no_read hindex
  | arrayLeaf hpass ha hi _ hevent =>
    have hstored := hat _ hpass
    rw [ha] at hstored
    refine leafEvents_readsStored (fun read hread => ?_) hevent
    simp only [arrayLeaf] at hread
    split at hread
    · cases hread
      exact readNumber_stored typed (hstored _ hi)
    · cases hread
  | arrayBelow hpass ha hi _ hreached =>
    have hstored := hat _ hpass
    rw [ha] at hstored
    exact hbelow _ (henters (hnotContainer ha) (hstored _ hi)) _ _ _ hreached
  | containerLeaf hpass ha hc hopen hi _ _ hevent =>
    have hstored := hat _ hpass
    rw [ha] at hstored
    have helement := element_stored typed hcollection hc (hpointers hc) hstored hopen hi (.inr rfl)
    rw [agrees.extractInnerType] at hevent
    refine leafEvents_readsStored (fun read hread => ?_) hevent
    simp only [containerLeaf] at hread
    split at hread
    · cases hread
      exact readNumber_stored typed helement
    split at hread
    · cases hread
      exact readString_stored typed helement
    · cases hread
  | containerBelow hpass ha hc hopen hi _ _ hreached =>
    have hstored := hat _ hpass
    rw [ha] at hstored
    have helement := element_stored typed hcollection hc (hpointers hc) hstored hopen hi (.inl rfl)
    exact hbelow _ (hentersElement ha hc helement) _ _ _ hreached
  | fieldLeaf hpass ha _ hevent =>
    have hstored := hat _ hpass
    rw [ha] at hstored
    refine leafEvents_readsStored (fun read hread => ?_) hevent
    simp only [fieldLeaf] at hread
    split at hread
    · cases hread
      exact readNumber_stored typed hstored
    split at hread
    · cases hread
      exact readString_stored typed hstored
    · cases hread
  | fieldBelow hpass ha hc _ hreached =>
    have hstored := hat _ hpass
    rw [ha] at hstored
    exact hbelow _ (henters hc hstored) _ _ _ hreached

/-- A traversal of a resolved path reads what is stored. -/
theorem reads_stored (agrees : mem.Agrees dictionary) {last : Option ResolvedLevel}
    {klass : Option TClass} {levels : List ResolvedLevel}
    (hchain : LevelChain dictionary strictLayout last klass levels) :
    WellStored hasPointers levels →
    (∀ l, last = some l → l.isPointer = true → l.isContainer = true →
      ∀ next ∈ levels.head?, IsValueStep l next.name) →
    ∀ address, Enters dictionary mem hasPointers strictLayout rootClass root last klass address →
    ∀ indices names event,
      Reached mem (levels.map (·.toPathLevel)) address indices names event →
      ReadsStored event := by
  induction hchain with
  | nil =>
    intro _ _ _ _ _ _ _ h
    cases h
  | @member last klass field streamerField cumulative member offset level rest hstep hfind hlevel
      hrest ih =>
    intro hwell hlast address henters indices names event h
    obtain ⟨hcollection, hname⟩ := memberLevel_collection hlevel
    have hplain : ∀ l, last = some l → l.isPointer = true → l.isContainer = false := by
      intro l hl hpointer
      by_contra hne
      rw [Bool.not_eq_false] at hne
      refine hstep l hl ?_
      rw [← hname]
      exact hlast l hl hpointer hne level rfl
    obtain ⟨type, hobject⟩ := henters.object hplain klass rfl
    have hat := storedAt_member hobject hfind hlevel hwell.2.1
    refine level_reads typed agrees hcollection hat hwell (fun below hbelow => ?_) h
    exact ih hwell.2.2.2.2 (fun l hl => by
      cases hl
      exact hwell.2.2.2.1) below hbelow
  | @value container klass level rest hstep hlevel hklass hrest ih =>
    intro hwell hlast address henters indices names event h
    obtain ⟨hcollection, -, harray, hpointer, -⟩ := valueLevel_collection hlevel
    have hat := storedAt_value (henters.value container rfl hstep.2.1) hlevel
    have hnext : (nextClass level).2 =
        if level.isContainer then level.elementClass else level.klass := by
      simp only [nextClass, hpointer, Bool.false_eq_true, if_false, harray, Option.isSome_none,
        Bool.false_and]
      split
      · rfl
      · cases level.klass <;> rfl
    refine level_reads typed agrees hcollection hat hwell (fun below hbelow => ?_) h
    rw [hnext] at hbelow
    exact ih hwell.2.2.2.2 (fun l hl => by
      cases hl
      exact hwell.2.2.2.1) below hbelow

end

end

end RootLake

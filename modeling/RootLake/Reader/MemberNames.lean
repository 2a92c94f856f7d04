import Mathlib.Data.List.Nodup
import Mathlib.Data.List.Perm.Subperm
import RootLake.Reader.ResolvedPath

/-!
# Members of a class and of its bases

Discovery and resolution walk over the bases of a class, each with a guard of its own against
cycles: a class is not entered below another class of its name. The names on the way are names
of the dictionary, so both walks end (`collectMemberNames_isSome`, `findStreamerField_depth`).
The names are collected once each, and the member that resolution finds is one that no class
on the way to it has a member of its own for.
-/

namespace RootLake

/-! ### Names on the way -/

/-- The names a class can have; an index without a class has the empty one. -/
def Dictionary.classNames (dictionary : Dictionary) : List String :=
  "" :: dictionary.classes.map (·.name)

/-- A way through the bases: no name twice, and names of classes only. -/
structure OnTheWay (dictionary : Dictionary) (names : List String) : Prop where
  nodup : names.Nodup
  known : ∀ name ∈ names, name ∈ dictionary.classNames

section Ways

variable {dictionary : Dictionary} {names : List String}

theorem className_known (dictionary : Dictionary) (klass : TClass) :
    (dictionary.info klass).name ∈ dictionary.classNames := by
  rcases info_mem_or dictionary klass with h | h
  · exact List.mem_cons_of_mem _ (List.mem_map_of_mem h)
  · rw [h]
    exact List.mem_cons_self

theorem onTheWay_nil : OnTheWay dictionary [] :=
  ⟨List.nodup_nil, fun _ h => absurd h List.not_mem_nil⟩

theorem OnTheWay.enter (h : OnTheWay dictionary names) {klass : TClass}
    (hnew : (dictionary.info klass).name ∉ names) :
    OnTheWay dictionary (names ++ [(dictionary.info klass).name]) where
  nodup := List.concat_eq_append ▸ List.Nodup.concat hnew h.nodup
  known name hname := by
    rcases List.mem_append.mp hname with hname | hname
    · exact h.known name hname
    · exact List.mem_singleton.mp hname ▸ className_known dictionary klass

theorem OnTheWay.length_le (h : OnTheWay dictionary names) :
    names.length ≤ dictionary.classes.length + 1 := by
  have hle := (List.Nodup.subperm h.nodup h.known).length_le
  simpa [Dictionary.classNames] using hle

/-- A way of full length has entered every class. -/
theorem OnTheWay.full (h : OnTheWay dictionary names)
    (hlength : dictionary.classes.length + 1 ≤ names.length) (klass : TClass) :
    (dictionary.info klass).name ∈ names := by
  have hfull : dictionary.classNames.length ≤ names.length := by
    simpa [Dictionary.classNames] using hlength
  have hperm := (List.Nodup.subperm h.nodup h.known).perm_of_length_le hfull
  exact hperm.mem_iff.mpr (className_known dictionary klass)

end Ways

/-! ### Collecting names -/

def keepName (names : List String) (name : String) : List String :=
  if name ∈ names then names else names ++ [name]

/-- The names of a class's own members, behind those seen before. -/
def collectOwnNames (members : List StreamerMember) (names : List String) : List String :=
  members.foldl (fun names member => if member.isBase then names else keepName names member.name)
    names

/-- The loop over the bases. -/
def collectBaseNames (dictionary : Dictionary)
    (collect : TClass → List String → Option (List String)) :
    List StreamerMember → List String → Option (List String)
  | [], names => some names
  | base :: members, names =>
      match if base.isBase then baseClass dictionary base else none with
      | none => collectBaseNames dictionary collect members names
      | some klass =>
          match collect klass names with
          | none => none
          | some names => collectBaseNames dictionary collect members names

/-- `CollectImmediateMemberNames`, as deep as `depth` allows; `none` is a walk that has not
    ended. The names seen are the names collected. -/
def collectMemberNames (dictionary : Dictionary) :
    Nat → TClass → List String → List String → Option (List String)
  | 0, _, _, _ => none
  | depth + 1, klass, activeBases, names =>
      let info := dictionary.info klass
      if info.name ∈ activeBases then some names
      -- the bookkeeping of `TObject` is no physics data
      else if info.name = "TObject" then some names
      else
        match info.members with
        | none => some names
        | some members =>
            collectBaseNames dictionary
              (fun base names =>
                collectMemberNames dictionary depth base (activeBases ++ [info.name]) names)
              members (collectOwnNames members names)

def collectImmediateMemberNames (dictionary : Dictionary) (klass : TClass) : List String :=
  (collectMemberNames dictionary (dictionary.classes.length + 2) klass [] []).getD []

theorem keepName_nodup {names : List String} (h : names.Nodup) (name : String) :
    (keepName names name).Nodup := by
  rw [keepName]
  split_ifs with hname
  · exact h
  · exact List.concat_eq_append ▸ List.Nodup.concat hname h

theorem collectOwnNames_nodup (members : List StreamerMember) {names : List String}
    (h : names.Nodup) : (collectOwnNames members names).Nodup := by
  induction members generalizing names with
  | nil => exact h
  | cons member members ih =>
    rw [collectOwnNames, List.foldl_cons, ← collectOwnNames]
    split_ifs
    · exact ih h
    · exact ih (keepName_nodup h member.name)

section Collecting

variable {dictionary : Dictionary}

theorem collectBaseNames_isSome {collect : TClass → List String → Option (List String)}
    (hcollect : ∀ klass names, (collect klass names).isSome) (members : List StreamerMember)
    (names : List String) : (collectBaseNames dictionary collect members names).isSome := by
  induction members generalizing names with
  | nil => rfl
  | cons base members ih =>
    rw [collectBaseNames]
    split
    · exact ih names
    · rename_i klass hklass
      obtain ⟨more, hmore⟩ := Option.isSome_iff_exists.mp (hcollect klass names)
      rw [hmore]
      exact ih more

/-- **The walk ends**: a way that leaves depth for every class there is. -/
theorem collectMemberNames_isSome {depth : Nat} {klass : TClass} {activeBases : List String}
    (hway : OnTheWay dictionary activeBases)
    (hdepth : dictionary.classes.length + 2 ≤ depth + activeBases.length) (names : List String) :
    (collectMemberNames dictionary depth klass activeBases names).isSome := by
  induction depth generalizing klass activeBases names with
  | zero =>
    have hle := hway.length_le
    omega
  | succ depth ih =>
    rw [collectMemberNames]
    split_ifs with hactive
    · rfl
    · rfl
    cases (dictionary.info klass).members with
    | none => rfl
    | some members =>
      refine collectBaseNames_isSome (fun base names => ih (hway.enter hactive) ?_ names) _ _
      rw [List.length_append, List.length_singleton]
      omega

theorem collectBaseNames_mono {collect deeper : TClass → List String → Option (List String)}
    (hdeeper : ∀ klass names result, collect klass names = some result →
      deeper klass names = some result)
    {members : List StreamerMember} {names result : List String}
    (h : collectBaseNames dictionary collect members names = some result) :
    collectBaseNames dictionary deeper members names = some result := by
  induction members generalizing names with
  | nil => exact h
  | cons base members ih =>
    rw [collectBaseNames] at h ⊢
    split at h
    · exact ih h
    · rename_i klass hklass
      cases hcollect : collect klass names with
      | none =>
        rw [hcollect] at h
        contradiction
      | some more =>
        rw [hcollect] at h
        rw [hdeeper klass names more hcollect]
        exact ih h

/-- More depth does not change a walk that has ended. -/
theorem collectMemberNames_mono {depth deeper : Nat} (hle : depth ≤ deeper) {klass : TClass}
    {activeBases names result : List String}
    (h : collectMemberNames dictionary depth klass activeBases names = some result) :
    collectMemberNames dictionary deeper klass activeBases names = some result := by
  induction depth generalizing deeper klass activeBases names result with
  | zero => contradiction
  | succ depth ih =>
    obtain ⟨more, rfl⟩ := Nat.exists_eq_add_of_lt hle
    rw [collectMemberNames] at h ⊢
    split_ifs at h ⊢ with hactive hobject
    · exact h
    · exact h
    cases hmembers : (dictionary.info klass).members with
    | none =>
      rw [hmembers] at h
      exact h
    | some members =>
      rw [hmembers] at h
      exact collectBaseNames_mono
        (fun _ _ _ hresult => ih (Nat.le_add_right depth more) hresult) h

/-- **The names of a class, at every sufficient depth.** -/
theorem collectMemberNames_eq (klass : TClass) {depth : Nat}
    (hdepth : dictionary.classes.length + 2 ≤ depth) :
    collectMemberNames dictionary depth klass [] [] =
      some (collectImmediateMemberNames dictionary klass) := by
  have hends := @collectMemberNames_isSome _ _ klass _ onTheWay_nil
    (Nat.le_add_right (dictionary.classes.length + 2) _) []
  obtain ⟨names, hnames⟩ := Option.isSome_iff_exists.mp hends
  rw [collectImmediateMemberNames, hnames]
  exact collectMemberNames_mono hdepth hnames

theorem collectBaseNames_nodup {collect : TClass → List String → Option (List String)}
    (hcollect : ∀ klass names result, names.Nodup → collect klass names = some result →
      result.Nodup)
    {members : List StreamerMember} {names result : List String} (hnames : names.Nodup)
    (h : collectBaseNames dictionary collect members names = some result) : result.Nodup := by
  induction members generalizing names with
  | nil => exact Option.some.inj h ▸ hnames
  | cons base members ih =>
    rw [collectBaseNames] at h
    split at h
    · exact ih hnames h
    · rename_i klass hklass
      cases hmore : collect klass names with
      | none =>
        rw [hmore] at h
        contradiction
      | some more =>
        rw [hmore] at h
        exact ih (hcollect klass names more hnames hmore) h

theorem collectMemberNames_nodup {depth : Nat} {klass : TClass}
    {activeBases names result : List String} (hnames : names.Nodup)
    (h : collectMemberNames dictionary depth klass activeBases names = some result) :
    result.Nodup := by
  induction depth generalizing klass activeBases names result with
  | zero => contradiction
  | succ depth ih =>
    rw [collectMemberNames] at h
    split_ifs at h with hactive hobject
    · exact Option.some.inj h ▸ hnames
    · exact Option.some.inj h ▸ hnames
    cases hmembers : (dictionary.info klass).members with
    | none =>
      rw [hmembers] at h
      exact Option.some.inj h ▸ hnames
    | some members =>
      rw [hmembers] at h
      exact collectBaseNames_nodup (fun _ _ _ hnodup hresult => ih hnodup hresult)
        (collectOwnNames_nodup members hnames) h

/-- **No name is collected twice.** -/
theorem collectImmediateMemberNames_nodup (dictionary : Dictionary) (klass : TClass) :
    (collectImmediateMemberNames dictionary klass).Nodup :=
  collectMemberNames_nodup List.nodup_nil (collectMemberNames_eq klass le_rfl)

end Collecting

/-! ### Finding a field -/

section Finding

variable {dictionary : Dictionary}

/-- The member of its own that a class has for a field. -/
def ownMember (dictionary : Dictionary) (klass : TClass) (field : String) :
    Option StreamerMember :=
  ((dictionary.info klass).members.getD []).find? fun member =>
    !member.isBase && field = member.name

/-- The member that a class has for a field: its own one, or that of a base if it has none of
    its own. A member that a derived class shadows is none. -/
inductive Unshadowed (dictionary : Dictionary) (field : String) : TClass → StreamerMember → Prop
  | own {klass : TClass} {member : StreamerMember}
      (h : ownMember dictionary klass field = some member) :
      Unshadowed dictionary field klass member
  | inherited {klass baseKlass : TClass} {base member : StreamerMember}
      (hown : ownMember dictionary klass field = none)
      (hbase : base ∈ (dictionary.info klass).members.getD [] ∧ base.isBase = true)
      (hclass : baseClass dictionary base = some baseKlass)
      (h : Unshadowed dictionary field baseKlass member) :
      Unshadowed dictionary field klass member

theorem findStreamerField_unshadowed {field : String} {depth : Nat} {klass : TClass}
    {visited : List String} {member : StreamerMember} {offset : Int}
    (h : findStreamerField dictionary field depth klass visited = some (member, offset)) :
    Unshadowed dictionary field klass member := by
  induction depth generalizing klass visited offset with
  | zero => exact absurd h (by simp [findStreamerField])
  | succ depth ih =>
    rw [findStreamerField] at h
    dsimp only at h
    split_ifs at h
    cases hown : ownMember dictionary klass field with
    | some found =>
      rw [ownMember] at hown
      rw [hown] at h
      obtain ⟨rfl, -⟩ := Prod.mk.inj (Option.some.inj h)
      exact .own hown
    | none =>
      have hnone := hown
      rw [ownMember] at hnone
      rw [hnone] at h
      obtain ⟨base, hmem, hbase⟩ := List.exists_of_findSome?_eq_some h
      split_ifs at hbase with hisBase
      cases hclass : baseClass dictionary base with
      | none =>
        rw [baseClass] at hclass
        rw [hclass] at hbase
        contradiction
      | some baseKlass =>
        have hpointer := hclass
        rw [baseClass] at hpointer
        rw [hpointer] at hbase
        obtain ⟨⟨found, inner⟩, hfound, hpair⟩ := Option.map_eq_some_iff.mp hbase
        obtain ⟨rfl, -⟩ := Prod.mk.inj hpair
        exact .inherited hown ⟨hmem, by simpa using hisBase⟩ hclass (ih hfound)

theorem findStreamerField_full {field : String} {klass : TClass} {visited : List String}
    (hway : OnTheWay dictionary visited)
    (hlength : dictionary.classes.length + 1 ≤ visited.length) (depth : Nat) :
    findStreamerField dictionary field depth klass visited = none := by
  cases depth with
  | zero => rfl
  | succ depth => rw [findStreamerField, if_pos (hway.full hlength klass)]

/-- **The search ends**: it finds the same at every sufficient depth. -/
theorem findStreamerField_depth {field : String} {depth other : Nat} {klass : TClass}
    {visited : List String} (hway : OnTheWay dictionary visited)
    (hdepth : dictionary.classes.length + 1 ≤ depth + visited.length)
    (hother : dictionary.classes.length + 1 ≤ other + visited.length) :
    findStreamerField dictionary field depth klass visited =
      findStreamerField dictionary field other klass visited := by
  induction depth generalizing other klass visited with
  | zero => rw [findStreamerField_full hway (by omega), findStreamerField_full hway (by omega)]
  | succ depth ih =>
    cases other with
    | zero => rw [findStreamerField_full hway (by omega), findStreamerField_full hway (by omega)]
    | succ other =>
      by_cases hvisited : (dictionary.info klass).name ∈ visited
      · rw [findStreamerField, findStreamerField, if_pos hvisited, if_pos hvisited]
      have hbases : ∀ base, findStreamerField dictionary field depth base
          (visited ++ [(dictionary.info klass).name]) =
            findStreamerField dictionary field other base
              (visited ++ [(dictionary.info klass).name]) := by
        intro base
        apply ih (hway.enter hvisited)
        all_goals rw [List.length_append, List.length_singleton]
        all_goals omega
      rw [findStreamerField, findStreamerField, if_neg hvisited, if_neg hvisited]
      simp only [hbases]

end Finding

end RootLake

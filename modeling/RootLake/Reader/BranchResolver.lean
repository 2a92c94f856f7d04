/-
  RootLake/Reader/BranchResolver.lean
  ===================================
  **The physical branch of a field path.**

  A split object has branches for its members, and a field path is read from the branch that stores
  it or from the one of its nearest ancestor.  The branches are told apart by their names alone:
  each name gets a score for how it resembles the path, and the first of the best wins.
-/
import RootLake.Lib.FirstBest
import Mathlib.Algebra.Order.Ring.Nat

namespace RootLake.BranchResolver

open RootLake.FirstBest

/-! ### Branches -/

/-- A branch, as far as the resolution reads it. `stored` is the member path whose values are in its
    baskets; the resolution does not know it. -/
structure TBranch where
  name : List Char
  /-- `GetWriteBasket` -/
  writeBasket : Int
  /-- `GetBasketEntry` is no null pointer. -/
  basketEntry : Bool
  /-- `GetBasketBytes` -/
  basketBytes : Option (List Int)
  /-- `GetBasketSeek`, zero beyond the end -/
  basketSeek : List Int
  /-- The baskets that `GetBasket` has. -/
  baskets : List Nat
  stored : List (List Char)
  deriving DecidableEq, Repr

/-- A branch with its `GetListOfBranches`. -/
inductive BranchTree where
  | node (branch : TBranch) (children : List BranchTree)

def BranchTree.branch : BranchTree → TBranch
  | .node branch _ => branch

def BranchTree.children : BranchTree → List BranchTree
  | .node _ children => children

mutual

def collectBranchTree : BranchTree → List BranchTree
  | .node branch children => .node branch children :: collectBranches children

def collectBranches : List BranchTree → List BranchTree
  | [] => []
  | child :: children => collectBranchTree child ++ collectBranches children

end

def hasPersistentBaskets (tree : BranchTree) : Bool :=
  let branch := tree.branch
  if branch.writeBasket + 1 ≤ 0 ∨ branch.basketEntry = false then false
  else (List.range (branch.writeBasket + 1).toNat).any fun basket =>
    decide (0 < branch.basketSeek.getD basket 0) ||
      branch.basketBytes.any (fun bytes => decide (0 < bytes.getD basket 0)) ||
        branch.baskets.contains basket

/-! ### Names -/

def isSeparator (c : Char) : Bool := c == '.' || c == '/' || c == '_'

def branchNameEndsWithToken (name token : List Char) : Bool :=
  if name = token then true
  else if name.length ≤ token.length then false
  else
    let position := name.length - token.length
    if name.drop position ≠ token then false
    else (name[position - 1]?).any isSeparator

/-- What is behind the first occurrence of the token. -/
def behindToken (token : List Char) : List Char → Option (List Char)
  | [] => if token = [] then some [] else none
  | c :: rest =>
      if token.isPrefixOf (c :: rest) then some ((c :: rest).drop token.length)
      else behindToken token rest

def containsTokensInOrder (name : List Char) : List (List Char) → Bool
  | [] => true
  | token :: tokens =>
      match behindToken token name with
      | none => false
      | some rest => containsTokensInOrder rest tokens

/-- `JoinStrings(fields, ".")` -/
def dotted (fields : List (List Char)) : List Char := ['.'].intercalate fields

/-- How the name of a branch resembles the path. -/
def nameScore (fields : List (List Char)) (name : List Char) : Option Nat :=
  let allowTerminalOnly := fields.length = 1
  let leaf := fields.getLastD []
  if name = dotted fields then some 500
  else if branchNameEndsWithToken name (dotted fields) then some 450
  else if containsTokensInOrder name fields then some 350
  else if allowTerminalOnly ∧ name = leaf then some 250
  else if allowTerminalOnly ∧ branchNameEndsWithToken name leaf then some 200
  else none

/-! ### Resolution -/

/-- The score of a candidate, none for one that is passed over. -/
def branchScore (fields : List (List Char)) (candidate : BranchTree) : Option Nat :=
  match nameScore fields candidate.branch.name with
  | none => none
  | some score =>
      if !hasPersistentBaskets candidate then none
      else
        some (score + (if candidate.children.isEmpty then 25 else 0) +
          if 0 < candidate.branch.basketSeek.getD 0 0 then 20 else 0)

def findPhysicalBranch (objectBranch : BranchTree) (fields : List (List Char)) :
    Option BranchTree :=
  if fields.isEmpty then none
  else firstBest (branchScore fields) (collectBranchTree objectBranch)

inductive PhysicalMode where
  | unresolved
  | exact
  | exactAlias
  | ancestor
  | ancestorAlias
  | object
  | proxy
  deriving DecidableEq, Repr

structure PhysicalBranchResolution where
  branch : Option BranchTree
  mode : PhysicalMode

/-- The names of `std::pair` members for those of a path through a map. -/
def streamerFields (fields : List (List Char)) : List (List Char) :=
  let keys := fields.map fun field => if field = "key".toList then "first".toList else field
  if keys.getLast? = some "value".toList then keys.dropLast ++ ["second".toList] else keys

def hasAlias (fields : List (List Char)) : Bool :=
  fields.contains "key".toList || fields.getLast? == some "value".toList

/-- The loop over the beginnings of the path, from the longest one. -/
def resolveBeginning (objectBranch : BranchTree) (fields : List (List Char)) :
    Nat → Option PhysicalBranchResolution
  | 0 => none
  | count + 1 =>
      let fullPath := count + 1 = fields.length
      match findPhysicalBranch objectBranch (fields.take (count + 1)) with
      | some ancestor => some ⟨some ancestor, if fullPath then .exact else .ancestor⟩
      | none =>
          match if hasAlias fields then
              findPhysicalBranch objectBranch ((streamerFields fields).take (count + 1))
            else none with
          | some ancestor => some ⟨some ancestor, if fullPath then .exactAlias else .ancestorAlias⟩
          | none => resolveBeginning objectBranch fields count

/-- How many members of the path the name ends with; those in front count more. -/
def proxyScore (fields : List (List Char)) (candidate : BranchTree) : Option Nat :=
  if !hasPersistentBaskets candidate then none
  else
    some (fields.zipIdx.map fun (field, i) =>
      if branchNameEndsWithToken candidate.branch.name field then 100 - min 99 i else 0).sum

def resolvePhysicalBranch (objectBranch : Option BranchTree) (fields : List (List Char)) :
    PhysicalBranchResolution :=
  match objectBranch with
  | none => ⟨none, .unresolved⟩
  | some object =>
      match findPhysicalBranch object fields with
      | some exact => ⟨some exact, .exact⟩
      | none =>
          match if hasAlias fields then findPhysicalBranch object (streamerFields fields)
            else none with
          | some exact => ⟨some exact, .exactAlias⟩
          | none =>
              match resolveBeginning object fields fields.length with
              | some resolution => resolution
              | none =>
                  if hasPersistentBaskets object then ⟨some object, .object⟩
                  else
                    match firstBest (proxyScore fields) (collectBranchTree object).tail with
                    | some best => ⟨some best, .proxy⟩
                    | none => ⟨none, .unresolved⟩

/-! ### What the resolution is for -/

variable {object : BranchTree} {fields : List (List Char)} {branch : BranchTree}

/-- Some branch with baskets stores the member path. -/
def Stores (object : BranchTree) (path : List (List Char)) : Prop :=
  ∃ branch ∈ collectBranchTree object, hasPersistentBaskets branch ∧ branch.branch.stored = path

/-- ROOT's names of split branches: the dotted member path, with or without the object branch's
    name and a dot ahead of it. -/
def SplitNamed (object : BranchTree) : Prop :=
  ∀ branch ∈ collectBranchTree object, hasPersistentBaskets branch →
    branch.branch.stored ≠ [] ∧ (branch.branch.name = dotted branch.branch.stored ∨
      branch.branch.name = object.branch.name ++ '.' :: dotted branch.branch.stored)

/-- The longest proper beginning of the path that any branch stores. -/
structure NearestAncestor (object : BranchTree) (fields path : List (List Char)) : Prop where
  stores : Stores object path
  beginning : path <+: fields
  proper : path ≠ fields
  longest : ∀ other, Stores object other → other <+: fields → other ≠ fields →
    other.length ≤ path.length

/-- A path is resolved to the branch that stores it, or to that of its nearest ancestor. -/
structure ResolvesMember (object : BranchTree) (fields : List (List Char)) : Prop where
  exact : ∀ branch, resolvePhysicalBranch (some object) fields = ⟨some branch, .exact⟩ →
    branch.branch.stored = fields
  ancestor : ∀ branch, resolvePhysicalBranch (some object) fields = ⟨some branch, .ancestor⟩ →
    NearestAncestor object fields branch.branch.stored
  complete : Stores object fields → (resolvePhysicalBranch (some object) fields).mode = .exact

/-! ### What the names match -/

theorem branchNameEndsWithToken_append (front token : List Char) :
    branchNameEndsWithToken (front ++ '.' :: token) token = true := by
  have hlength : (front ++ '.' :: token).length = front.length + 1 + token.length := by
    simp only [List.length_append, List.length_cons]
    omega
  have hposition : (front ++ '.' :: token).length - token.length = front.length + 1 := by
    omega
  rw [branchNameEndsWithToken]
  split
  · rfl
  · rw [if_neg (by omega), hposition]
    have hdrop : (front ++ '.' :: token).drop (front.length + 1) = token := by simp
    rw [if_neg (not_not.mpr hdrop)]
    simp [isSeparator]

/-- A branch that stores a path matches it. -/
theorem nameScore_isSome {name front : List Char}
    (h : name = dotted fields ∨ name = front ++ '.' :: dotted fields) :
    (nameScore fields name).isSome := by
  rw [nameScore]
  rcases h with rfl | rfl
  · rw [if_pos rfl]
    rfl
  · split
    · rfl
    · rw [if_pos (branchNameEndsWithToken_append front (dotted fields))]
      rfl

/-- Some branch with baskets has a name that resembles the path. -/
def Matches (object : BranchTree) (path : List (List Char)) : Prop :=
  ∃ branch ∈ collectBranchTree object, (branchScore path branch).isSome

theorem branchScore_isSome_iff :
    (branchScore fields branch).isSome ↔
      (nameScore fields branch.branch.name).isSome ∧ hasPersistentBaskets branch := by
  rw [branchScore]
  cases nameScore fields branch.branch.name with
  | none => simp
  | some score =>
    cases hasPersistentBaskets branch with
    | false => simp
    | true => simp

theorem Stores.matches (hnamed : SplitNamed object) (h : Stores object fields) :
    Matches object fields := by
  obtain ⟨branch, hmem, hbaskets, rfl⟩ := h
  exact ⟨branch, hmem, branchScore_isSome_iff.mpr
    ⟨nameScore_isSome (hnamed branch hmem hbaskets).2, hbaskets⟩⟩

theorem findPhysicalBranch_eq_none_iff (hne : fields ≠ []) :
    findPhysicalBranch object fields = none ↔ ¬ Matches object fields := by
  rw [findPhysicalBranch, if_neg (by simpa using hne), Matches, ← firstBest_isSome_iff,
    Option.not_isSome_iff_eq_none]

/-- The branch that is found matches the path. -/
theorem findPhysicalBranch_some (h : findPhysicalBranch object fields = some branch) :
    fields ≠ [] ∧ firstBest (branchScore fields) (collectBranchTree object) = some branch := by
  rw [findPhysicalBranch] at h
  split at h
  · cases h
  · rename_i hne
    exact ⟨by simpa using hne, h⟩

/-! ### The beginning of the path that is taken -/

/-- The longest beginning of the path that the name of some branch resembles. -/
structure LongestMatch (object : BranchTree) (fields : List (List Char)) (count : Nat) : Prop where
  positive : 0 < count
  bound : count ≤ fields.length
  found : Matches object (fields.take count)
  longest : ∀ longer, count < longer → longer ≤ fields.length →
    ¬ Matches object (fields.take longer)

theorem LongestMatch.unique {count other : Nat} (h : LongestMatch object fields count)
    (hother : LongestMatch object fields other) : count = other := by
  rcases Nat.lt_trichotomy count other with hlt | heq | hlt
  · exact absurd hother.found (h.longest other hlt hother.bound)
  · exact heq
  · exact absurd h.found (hother.longest count hlt h.bound)

theorem take_ne_nil {count : Nat} (hpositive : 0 < count) (hbound : count ≤ fields.length) :
    fields.take count ≠ [] := by
  intro hnil
  have hlength := congrArg List.length hnil
  rw [List.length_take, List.length_nil] at hlength
  omega

/-- Without an alias the loop takes the longest beginning that matches, of those up to a length. -/
theorem resolveBeginning_cases (object : BranchTree) (halias : hasAlias fields = false) :
    ∀ {bound : Nat}, bound ≤ fields.length →
      (∃ count branch, 0 < count ∧ count ≤ bound ∧
        findPhysicalBranch object (fields.take count) = some branch ∧
          resolveBeginning object fields bound =
            some ⟨some branch, if count = fields.length then .exact else .ancestor⟩ ∧
          ∀ longer, count < longer → longer ≤ bound → ¬ Matches object (fields.take longer)) ∨
        (resolveBeginning object fields bound = none ∧
          ∀ count, 0 < count → count ≤ bound → ¬ Matches object (fields.take count)) := by
  intro bound
  induction bound with
  | zero =>
    intro _
    exact .inr ⟨rfl, fun count hpositive hzero => absurd hpositive (by omega)⟩
  | succ bound ih =>
    intro hbound
    rw [resolveBeginning, halias]
    cases hfind : findPhysicalBranch object (fields.take (bound + 1)) with
    | some branch =>
      exact .inl ⟨bound + 1, branch, Nat.succ_pos _, Nat.le_refl _, hfind, rfl,
        fun longer hlt hle => absurd hlt (by omega)⟩
    | none =>
      have hnone : ¬ Matches object (fields.take (bound + 1)) :=
        (findPhysicalBranch_eq_none_iff (take_ne_nil (Nat.succ_pos _) hbound)).mp hfind
      rcases ih (by omega) with ⟨count, branch, hpositive, hle, hcount, hresult, hlonger⟩ |
        ⟨hresult, hall⟩
      · refine .inl ⟨count, branch, hpositive, by omega, hcount, hresult, ?_⟩
        intro longer hlt hle'
        rcases Nat.lt_or_eq_of_le hle' with hless | rfl
        · exact hlonger longer hlt (by omega)
        · exact hnone
      · refine .inr ⟨hresult, fun count hpositive hle => ?_⟩
        rcases Nat.lt_or_eq_of_le hle with hless | rfl
        · exact hall count hpositive (by omega)
        · exact hnone

/-- **What a path without aliases is resolved to.** -/
theorem resolvePhysicalBranch_cases (object : BranchTree) (halias : hasAlias fields = false) :
    (∃ count branch, LongestMatch object fields count ∧
      findPhysicalBranch object (fields.take count) = some branch ∧
        resolvePhysicalBranch (some object) fields =
          ⟨some branch, if count = fields.length then .exact else .ancestor⟩) ∨
      ((∀ count, ¬ LongestMatch object fields count) ∧
        (resolvePhysicalBranch (some object) fields).mode ≠ .exact ∧
          (resolvePhysicalBranch (some object) fields).mode ≠ .ancestor) := by
  have hfull : fields.take fields.length = fields := List.take_length
  cases hfind : findPhysicalBranch object fields with
  | some branch =>
    have hne := (findPhysicalBranch_some hfind).1
    refine .inl ⟨fields.length, branch, ⟨List.length_pos_iff.mpr hne, Nat.le_refl _, ?_,
      fun longer hlt hle => absurd hlt (by omega)⟩, by rwa [hfull], ?_⟩
    · rw [hfull]
      by_contra hnone
      rw [(findPhysicalBranch_eq_none_iff hne).mpr hnone] at hfind
      cases hfind
    · rw [if_pos rfl, resolvePhysicalBranch, hfind]
  | none =>
    have hresolve : resolvePhysicalBranch (some object) fields =
        match resolveBeginning object fields fields.length with
        | some resolution => resolution
        | none =>
            if hasPersistentBaskets object then ⟨some object, .object⟩
            else
              match firstBest (proxyScore fields) (collectBranchTree object).tail with
              | some best => ⟨some best, .proxy⟩
              | none => ⟨none, .unresolved⟩ := by
      rw [resolvePhysicalBranch, halias, hfind]
      rfl
    rcases resolveBeginning_cases object halias (Nat.le_refl fields.length) with
      ⟨count, branch, hpositive, hle, hcount, hresult, hlonger⟩ | ⟨hresult, hall⟩
    · refine .inl ⟨count, branch, ⟨hpositive, hle, ?_, hlonger⟩, hcount, ?_⟩
      · by_contra hnone
        rw [(findPhysicalBranch_eq_none_iff (take_ne_nil hpositive hle)).mpr hnone] at hcount
        cases hcount
      · rw [hresolve, hresult]
    · refine .inr ⟨fun count hmatch => hall count hmatch.positive hmatch.bound hmatch.found, ?_⟩
      rw [hresolve, hresult]
      dsimp only
      split
      · exact ⟨fun h => (by cases h), fun h => (by cases h)⟩
      · split
        · exact ⟨fun h => (by cases h), fun h => (by cases h)⟩
        · exact ⟨fun h => (by cases h), fun h => (by cases h)⟩

/-! ### When the branch is the right one -/

/-- The branch that should be taken for a beginning of the path of this length: one that stores the
    whole path if it is the whole path, else one that stores the nearest ancestor. -/
def Wanted (object : BranchTree) (fields : List (List Char)) (count : Nat) (branch : BranchTree) :
    Prop :=
  if count = fields.length then branch.branch.stored = fields
  else NearestAncestor object fields branch.branch.stored

theorem hasAlias_eq_false (hkey : "key".toList ∉ fields) (hvalue : "value".toList ∉ fields) :
    hasAlias fields = false := by
  rw [hasAlias, Bool.or_eq_false_iff]
  constructor
  · simpa using hkey
  · rw [beq_eq_false_iff_ne]
    intro hlast
    exact hvalue (List.mem_of_getLast? hlast)

/-- A stored path is the longest match itself. -/
theorem Stores.longestMatch (hnamed : SplitNamed object) (h : Stores object fields) :
    LongestMatch object fields fields.length := by
  have hne : fields ≠ [] := by
    obtain ⟨branch, hmem, hbaskets, rfl⟩ := h
    exact (hnamed branch hmem hbaskets).1
  refine ⟨List.length_pos_iff.mpr hne, Nat.le_refl _, ?_, fun longer hlt hle => ?_⟩
  · rw [List.take_length]
    exact h.matches hnamed
  · omega

/-- A branch of a member with one basket on disk. -/
def memberBranch (member : String) : BranchTree :=
  .node ⟨"event".toList ++ '.' :: member.toList, 0, true, some [100], [200], [], [member.toList]⟩ []

/-- A split object: the members are in its branches. -/
def splitObject (members : List String) : BranchTree :=
  .node ⟨"event".toList, 0, true, some [0], [0], [], []⟩ (members.map memberBranch)

theorem collectBranchTree_splitObject (members : List String) :
    collectBranchTree (splitObject members) = splitObject members :: members.map memberBranch := by
  have hmembers : ∀ members : List String,
      collectBranches (members.map memberBranch) = members.map memberBranch := by
    intro members
    induction members with
    | nil => rfl
    | cons member members ih =>
      rw [List.map_cons, collectBranches, ih]
      rfl
  rw [splitObject, collectBranchTree, hmembers]

theorem splitNamed_splitObject (members : List String) : SplitNamed (splitObject members) := by
  intro branch hmem hbaskets
  rw [collectBranchTree_splitObject] at hmem
  rcases List.mem_cons.mp hmem with rfl | hmem
  · have hnone : hasPersistentBaskets (splitObject members) = false := rfl
    rw [hnone] at hbaskets
    cases hbaskets
  · obtain ⟨member, -, rfl⟩ := List.mem_map.mp hmem
    have hdotted : dotted [member.toList] = member.toList := by simp [dotted]
    refine ⟨List.cons_ne_nil _ _, .inr ?_⟩
    change "event".toList ++ '.' :: member.toList = "event".toList ++ '.' :: dotted [member.toList]
    rw [hdotted]

end RootLake.BranchResolver

import RootLake.Dataset.EntrySelectionJson
import RootLake.Lib.ExceptRules
import RootLake.Lib.KeepFirst
import RootLake.Reader.LogicalPath

/-!
# Input specifications

`RootInputResolver` turns a specification into files. It may hold names of files, patterns,
directories and lists, and what a list holds is a specification again: the lines of a list are
put in front of what is still pending. A file is kept where it is found first.
-/

namespace RootLake.Core

open KeepFirst
open LogicalPath (getlines)
open Dataset (Json)

/-! ### Names -/

def isBlank (c : Char) : Bool := c = ' ' || c = '\t' || c = '\r' || c = '\n'

def trimInput (value : List Char) : List Char :=
  ((value.dropWhile isBlank).reverse.dropWhile isBlank).reverse

/-- What stands behind the last of the delimiters. -/
def lastComponent (delimiters path : List Char) : List Char :=
  (path.reverse.takeWhile fun c => !delimiters.contains c).reverse

/-- What stands behind the last occurrence of a marker. -/
def afterLast (marker : List Char) : List Char → Option (List Char)
  | [] => none
  | c :: rest =>
      match afterLast marker rest with
      | some suffix => some suffix
      | none =>
          if marker.isPrefixOf (c :: rest) then some ((c :: rest).drop marker.length) else none

/-- `RootInputResolver::IsRootFileName`. -/
def isRootFileName (path : List Char) : Bool :=
  match afterLast ".root".toList (lastComponent ['/', '\\'] path) with
  | none => false
  | some suffix =>
      suffix.isEmpty ||
        (suffix.head? = some '.' && suffix.length ≠ 1 && (suffix.drop 1).all Char.isDigit)

/-- `RootInputResolver::HasGlob`. -/
def hasGlob (path : List Char) : Bool := path.any fun c => c = '*' || c = '?' || c = '['

/-- `RootInputResolver::IsRemoteUri`: the first `://` is not at the beginning. -/
def isRemoteUri (path : List Char) : Bool :=
  !"://".toList.isPrefixOf path && path.tails.any fun rest => "://".toList.isPrefixOf rest

/-- `fs::path::extension`. -/
def extension (path : List Char) : List Char :=
  let name := lastComponent ['/'] path
  let tail := (name.reverse.takeWhile (· ≠ '.')).reverse
  if name = "..".toList || name.length ≤ tail.length + 1 then [] else '.' :: tail

/-! ### Files -/

/-- What the resolver asks the file systems: a local list, the kind of a local path, and
    DuckDB's `Glob`. -/
structure FileSystem where
  contents : List Char → Option (List Char)
  isRegularFile : List Char → Bool
  isDirectory : List Char → Bool
  glob : List Char → Except String (List (List Char))

def listExtensions : List (List Char) :=
  [".txt".toList, ".list".toList, ".manifest".toList, ".uris".toList]

def isImplicitList (fileSystem : FileSystem) (path : List Char) : Bool :=
  !isRemoteUri path && listExtensions.contains (extension path) && fileSystem.isRegularFile path

def readLocalList (fileSystem : FileSystem) (path : List Char) :
    Except String (List (List Char)) :=
  match fileSystem.contents path with
  | none => .error ("Cannot open ROOT URI list: " ++ String.ofList path)
  | some contents =>
      .ok (((getlines '\n' contents).map trimInput).filter fun line =>
        !line.isEmpty && line.head? ≠ some '#')

def specificationItem : Json → Except String (List Char)
  | .string value => .ok (trimInput value.toList)
  | _ => .error "ROOT inputs JSON entries must be strings"

def parseSpecifications (parseJson : String → Except String Json) (raw : List Char) :
    Except String (List (List Char)) :=
  let input := trimInput raw
  if input.head? = some '[' && input.getLast? = some ']' then
    match parseJson (String.ofList input) with
    | .error e => .error e
    | .ok (.array items) =>
        (items.mapM specificationItem).map (List.filter fun value => !value.isEmpty)
    | .ok _ => .error "ROOT inputs JSON must be an array"
  else .ok (((getlines ',' input).map trimInput).filter fun value => !value.isEmpty)

def remoteGlobFailure (pattern : List Char) (detail : String) : String :=
  "Cannot expand remote ROOT glob '" ++ String.ofList pattern ++ "'" ++
    (if detail.isEmpty then "" else ": " ++ detail) ++
    ". Exact remote URIs are opened by ROOT; wildcard expansion requires a DuckDB filesystem " ++
    "backend that can list that URI scheme. Use an explicit JSON/comma list or a local @list of " ++
    "URIs when listing is unavailable."

/-- The list a specification stands for, if it does. -/
def listPath (fileSystem : FileSystem) (spec : List Char) :
    Except String (Option (List Char)) :=
  if spec.head? = some '@' then
    if isRemoteUri (spec.drop 1) then
      .error "ROOT @lists must be local files; their entries may contain remote URIs"
    else .ok (if (spec.drop 1).isEmpty then none else some (spec.drop 1))
  else .ok (if isImplicitList fileSystem spec then some spec else none)

/-- `fs::path(spec) / "*.root*"`. -/
def childPattern (spec : List Char) : List Char :=
  spec ++ (if spec.getLast? = some '/' then [] else ['/']) ++ "*.root*".toList

/-- The files of a specification that is no list. -/
def matchedFiles (fileSystem : FileSystem) (spec : List Char) :
    Except String (List (List Char)) :=
  if !hasGlob spec && (isRootFileName spec || isRemoteUri spec) then .ok [spec]
  else
    let directoryInput := !isRemoteUri spec && fileSystem.isDirectory spec
    let pattern := if directoryInput then childPattern spec else spec
    match fileSystem.glob pattern with
    | .error e =>
        .error (if isRemoteUri pattern && hasGlob pattern then remoteGlobFailure pattern e else e)
    | .ok found =>
        let matched := (found.filter fun path => !directoryInput || isRootFileName path).mergeSort
          fun a b => decide (String.ofList a ≤ String.ofList b)
        if !matched.isEmpty then .ok matched
        else if !hasGlob spec then .ok [spec]
        else if isRemoteUri spec then
          .error (remoteGlobFailure spec "the filesystem backend returned no matches")
        else .ok []

/-! ### The loop -/

/-- The loop of `Resolve`; `budget` is how many more specifications it takes. -/
def resolveFrom (fileSystem : FileSystem) :
    Nat → List (List Char) → List (List Char) → Except String (List (List Char))
  | _, [], files => .ok files
  | 0, _ :: _, _ => .error "ROOT input expansion is unreasonably large"
  | budget + 1, item :: pending, files =>
      let spec := trimInput item
      if spec.isEmpty then resolveFrom fileSystem budget pending files
      else
        match listPath fileSystem spec with
        | .error e => .error e
        | .ok (some path) =>
            match readLocalList fileSystem path with
            | .error e => .error e
            | .ok nested => resolveFrom fileSystem budget (nested ++ pending) files
        | .ok none =>
            match matchedFiles fileSystem spec with
            | .error e => .error e
            | .ok matched =>
                resolveFrom fileSystem budget pending (matched.foldl (addFirst id) files)

/-- `RootInputResolver::Resolve`. -/
def resolve (fileSystem : FileSystem) (parseJson : String → Except String Json)
    (raw : List Char) : Except String (List (List Char)) :=
  match parseSpecifications parseJson raw with
  | .error e => .error e
  | .ok pending =>
      match resolveFrom fileSystem 1000000 pending [] with
      | .error e => .error e
      | .ok files =>
          if files.isEmpty then
            .error ("No ROOT files matched input specification: " ++ String.ofList raw)
          else .ok files

/-! ### Texts -/

theorem trimInput_eq_self {value : List Char} (hhead : ∀ c, value.head? = some c → isBlank c = false)
    (hlast : ∀ c, value.getLast? = some c → isBlank c = false) : trimInput value = value := by
  have hdrop {value : List Char} (hhead : ∀ c, value.head? = some c → isBlank c = false) :
      value.dropWhile isBlank = value := by
    cases value with
    | nil => rfl
    | cons c rest => rw [List.dropWhile_cons_of_neg (by rw [hhead c rfl]; decide)]
  rw [trimInput, hdrop hhead, hdrop fun c hc => hlast c ?_, List.reverse_reverse]
  rwa [List.head?_reverse] at hc

theorem getlines_of_not_mem {delimiter : Char} {text : List Char} (h : delimiter ∉ text)
    (hne : text ≠ []) : getlines delimiter text = [text] := by
  induction text with
  | nil => exact absurd rfl hne
  | cons c rest ih =>
    rw [List.mem_cons, not_or] at h
    rw [getlines, if_neg fun hc => h.1 hc.symm]
    cases rest with
    | nil => rfl
    | cons d rest => rw [ih h.2 (List.cons_ne_nil d rest)]

/-- A line that ends is the first of the lines. -/
theorem getlines_line {delimiter : Char} {line : List Char} (h : delimiter ∉ line)
    (rest : List Char) :
    getlines delimiter (line ++ delimiter :: rest) = line :: getlines delimiter rest := by
  induction line with
  | nil => rw [List.nil_append, getlines, if_pos rfl]
  | cons c line ih =>
    rw [List.mem_cons, not_or] at h
    rw [List.cons_append, getlines, if_neg fun hc => h.1 hc.symm, ih h.2]

/-! ### Runs of the loop -/

/-- A specification that is taken as it is and is no list. -/
structure Plain (fileSystem : FileSystem) (spec : List Char) : Prop where
  trimmed : trimInput spec = spec
  nonempty : spec ≠ []
  noList : listPath fileSystem spec = .ok none

/-- Specifications that are no lists are taken one by one. -/
theorem resolveFrom_ok_iff {fileSystem : FileSystem} {specs : List (List Char)}
    (hplain : ∀ spec ∈ specs, Plain fileSystem spec) (budget : Nat)
    (files result : List (List Char)) :
    resolveFrom fileSystem budget specs files = .ok result ↔
      specs.length ≤ budget ∧
        ∃ matched, List.Forall₂ (fun spec found => matchedFiles fileSystem spec = .ok found)
          specs matched ∧ matched.flatten.foldl (addFirst id) files = result := by
  induction specs generalizing budget files with
  | nil =>
    rw [resolveFrom]
    constructor
    · intro h
      exact ⟨Nat.zero_le _, [], .nil, Except.ok.inj h⟩
    · rintro ⟨-, matched, hmatched, hresult⟩
      cases hmatched
      exact congrArg Except.ok hresult
  | cons spec specs ih =>
    cases budget with
    | zero =>
      rw [resolveFrom]
      exact ⟨fun h => (nomatch h), fun h => absurd h.1 (by simp)⟩
    | succ budget =>
      obtain ⟨htrimmed, hne, hlist⟩ := hplain spec List.mem_cons_self
      have hempty : spec.isEmpty = false := List.isEmpty_eq_false_iff.mpr hne
      have hmore := ih (fun other hother => hplain other (List.mem_cons_of_mem _ hother)) budget
      rw [resolveFrom]
      simp only [htrimmed, hempty, Bool.false_eq_true, if_false, hlist]
      cases hfound : matchedFiles fileSystem spec with
      | error e =>
        refine ⟨fun h => (nomatch h), ?_⟩
        rintro ⟨-, matched, hmatched, -⟩
        cases hmatched with
        | cons hspec _ => exact nomatch hfound.symm.trans hspec
      | ok found =>
        dsimp only
        rw [hmore, List.length_cons, Nat.add_le_add_iff_right]
        refine and_congr_right fun _ => ⟨?_, ?_⟩
        · rintro ⟨matched, hmatched, hresult⟩
          refine ⟨found :: matched, .cons hfound hmatched, ?_⟩
          rw [List.flatten_cons, List.foldl_append, hresult]
        · rintro ⟨matched, hmatched, hresult⟩
          cases hmatched with
          | cons hspec hmatched =>
            obtain rfl := Except.ok.inj (hfound.symm.trans hspec)
            rw [List.flatten_cons, List.foldl_append] at hresult
            exact ⟨_, hmatched, hresult⟩

end RootLake.Core

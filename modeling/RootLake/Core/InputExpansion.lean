import Mathlib.Data.List.Sort
import Mathlib.Data.String.Basic
import RootLake.Core.InputResolver

/-!
# What an input specification expands to

A specification expands from left to right: a list to what its lines expand to, a pattern to its
sorted matches. Lists may name each other, so an expansion need not exist; where it does it has
a size, and `Resolve` returns the files of an expansion whose size is within the cap, each where
it is found first (`resolve_expands`).
-/

namespace RootLake.Core

open KeepFirst
open Dataset (Json)

/-! ### Expansions -/

def PathLe (path other : List Char) : Prop := String.ofList path ≤ String.ofList other

/-- A name that is passed on as it is. -/
def ExactName (spec : List Char) : Prop :=
  hasGlob spec = false ∧ (isRootFileName spec = true ∨ isRemoteUri spec = true)

/-- The files that a pattern matches, and of a directory its ROOT files. -/
def candidates (fileSystem : FileSystem) (spec : List Char) :
    Except String (List (List Char)) :=
  if !isRemoteUri spec && fileSystem.isDirectory spec then
    (fileSystem.glob (childPattern spec)).map (List.filter isRootFileName)
  else fileSystem.glob spec

/-- What a specification that is no list stands for. -/
inductive FilesOf (fileSystem : FileSystem) (spec : List Char) : List (List Char) → Prop
  | exact (h : ExactName spec) : FilesOf fileSystem spec [spec]
  | sorted (all found : List (List Char)) (h : ¬ ExactName spec)
      (hall : candidates fileSystem spec = .ok all) (hperm : found.Perm all)
      (hsorted : found.Pairwise PathLe) (hne : found ≠ []) : FilesOf fileSystem spec found
  | missing (h : ¬ ExactName spec) (hall : candidates fileSystem spec = .ok [])
      (hglob : hasGlob spec = false) : FilesOf fileSystem spec [spec]
  | noMatch (h : ¬ ExactName spec) (hall : candidates fileSystem spec = .ok [])
      (hglob : hasGlob spec = true) (hlocal : isRemoteUri spec = false) :
      FilesOf fileSystem spec []

/-- Specifications, the number of specifications in their expansion, and the files they stand
    for from left to right. -/
inductive Expands (fileSystem : FileSystem) : List (List Char) → Nat → List (List Char) → Prop
  | nil : Expands fileSystem [] 0 []
  | blank {item : List Char} {rest outer : List (List Char)} {n : Nat}
      (hitem : trimInput item = []) (hrest : Expands fileSystem rest n outer) :
      Expands fileSystem (item :: rest) (n + 1) outer
  | list {item path : List Char} {nested rest inner outer : List (List Char)} {m n : Nat}
      (hitem : trimInput item ≠ []) (hlist : listPath fileSystem (trimInput item) = .ok (some path))
      (hlines : readLocalList fileSystem path = .ok nested)
      (hnested : Expands fileSystem nested m inner) (hrest : Expands fileSystem rest n outer) :
      Expands fileSystem (item :: rest) (m + n + 1) (inner ++ outer)
  | files {item : List Char} {rest found outer : List (List Char)} {n : Nat}
      (hitem : trimInput item ≠ []) (hlist : listPath fileSystem (trimInput item) = .ok none)
      (hfound : FilesOf fileSystem (trimInput item) found)
      (hrest : Expands fileSystem rest n outer) :
      Expands fileSystem (item :: rest) (n + 1) (found ++ outer)

/-- The specifications that are met: those given, and the lines of the lists among them. -/
inductive Reached (fileSystem : FileSystem) (specs : List (List Char)) : List Char → Prop
  | given {item : List Char} (h : item ∈ specs) : Reached fileSystem specs item
  | line {item path line : List Char} {nested : List (List Char)}
      (hitem : Reached fileSystem specs item)
      (hlist : listPath fileSystem (trimInput item) = .ok (some path))
      (hlines : readLocalList fileSystem path = .ok nested) (hline : line ∈ nested) :
      Reached fileSystem specs line

/-- A specification that raises nothing by itself. -/
def Readable (fileSystem : FileSystem) (item : List Char) : Prop :=
  trimInput item = [] ∨
    (∃ path nested, listPath fileSystem (trimInput item) = .ok (some path) ∧
      readLocalList fileSystem path = .ok nested) ∨
    ∃ found, listPath fileSystem (trimInput item) = .ok none ∧
      matchedFiles fileSystem (trimInput item) = .ok found

section Expansions

variable {fileSystem : FileSystem}

theorem Expands.append {specs others : List (List Char)} {m n : Nat}
    {inner outer : List (List Char)} (h : Expands fileSystem specs m inner)
    (hothers : Expands fileSystem others n outer) :
    Expands fileSystem (specs ++ others) (m + n) (inner ++ outer) := by
  induction h with
  | nil => rwa [Nat.zero_add]
  | blank hitem _ ih =>
    rw [Nat.add_right_comm]
    exact .blank hitem ih
  | @list item path nested rest inner outer m k hitem hlist hlines hnested _ _ ih =>
    rw [List.append_assoc, show m + k + 1 + n = m + (k + n) + 1 by omega]
    exact .list hitem hlist hlines hnested ih
  | files hitem hlist hfound _ ih =>
    rw [List.append_assoc, Nat.add_right_comm]
    exact .files hitem hlist hfound ih

theorem Expands.split {specs others : List (List Char)} {size : Nat} {found : List (List Char)}
    (h : Expands fileSystem (specs ++ others) size found) :
    ∃ m n inner outer, Expands fileSystem specs m inner ∧ Expands fileSystem others n outer ∧
      size = m + n ∧ found = inner ++ outer := by
  induction specs generalizing size found with
  | nil => exact ⟨0, size, [], found, .nil, h, (Nat.zero_add size).symm, rfl⟩
  | cons item specs ih =>
    cases h with
    | blank hitem hrest =>
      obtain ⟨m, n, inner, outer, hspecs, hothers, rfl, rfl⟩ := ih hrest
      exact ⟨m + 1, n, inner, outer, .blank hitem hspecs, hothers, by omega, rfl⟩
    | list hitem hlist hlines hnested hrest =>
      obtain ⟨m, n, inner, outer, hspecs, hothers, rfl, rfl⟩ := ih hrest
      exact ⟨_, n, _, outer, .list hitem hlist hlines hnested hspecs, hothers, by omega,
        (List.append_assoc _ _ _).symm⟩
    | files hitem hlist hfound hrest =>
      obtain ⟨m, n, inner, outer, hspecs, hothers, rfl, rfl⟩ := ih hrest
      exact ⟨m + 1, n, _, outer, .files hitem hlist hfound hspecs, hothers, by omega,
        (List.append_assoc _ _ _).symm⟩

theorem Reached.mono {specs others : List (List Char)} {item : List Char}
    (h : Reached fileSystem specs item) (hsub : ∀ spec ∈ specs, Reached fileSystem others spec) :
    Reached fileSystem others item := by
  induction h with
  | given h => exact hsub _ h
  | line _ hlist hlines hline ih => exact .line ih hlist hlines hline

/-! ### Matches -/

theorem sorted_unique {found other : List (List Char)} (hperm : found.Perm other)
    (hfound : found.Pairwise PathLe) (hother : other.Pairwise PathLe) : found = other :=
  hperm.eq_of_pairwise
    (fun _ _ _ _ hle hge => String.ofList_injective (le_antisymm hle hge)) hfound hother

theorem mergeSort_paths (found : List (List Char)) :
    (found.mergeSort fun a b => decide (String.ofList a ≤ String.ofList b)).Pairwise PathLe := by
  have hsorted := @List.pairwise_mergeSort (List Char)
    (fun a b => decide (String.ofList a ≤ String.ofList b))
    (fun a b c hab hbc => decide_eq_true
      (le_trans (of_decide_eq_true hab) (of_decide_eq_true hbc)))
    (fun a b => by
      rw [Bool.or_eq_true, decide_eq_true_eq, decide_eq_true_eq]
      exact le_total _ _) found
  exact hsorted.imp of_decide_eq_true

/-- The name test of `matchedFiles`. -/
theorem exactName_iff {spec : List Char} :
    (!hasGlob spec && (isRootFileName spec || isRemoteUri spec)) = true ↔ ExactName spec := by
  rw [ExactName, Bool.and_eq_true, Bool.or_eq_true, Bool.not_eq_true']

/-- What `matchedFiles` makes of the candidates of a specification that is no exact name. -/
theorem matchedFiles_candidates {spec : List Char} (h : ¬ ExactName spec)
    {found : List (List Char)} :
    matchedFiles fileSystem spec = .ok found ↔
      ∃ all, candidates fileSystem spec = .ok all ∧
        (if all ≠ [] then
          found = all.mergeSort fun a b => decide (String.ofList a ≤ String.ofList b)
        else if hasGlob spec = false then found = [spec]
        else isRemoteUri spec = false ∧ found = []) := by
  have hname : (!hasGlob spec && (isRootFileName spec || isRemoteUri spec)) = false :=
    Bool.eq_false_iff.mpr fun htrue => h (exactName_iff.mp htrue)
  have hmatches (all : List (List Char)) :
      (if !(all.mergeSort fun a b => decide (String.ofList a ≤ String.ofList b)).isEmpty then
          Except.ok (all.mergeSort fun a b => decide (String.ofList a ≤ String.ofList b))
        else if !hasGlob spec then .ok [spec]
        else if isRemoteUri spec then
          .error (remoteGlobFailure spec "the filesystem backend returned no matches")
        else .ok []) = .ok found ↔
      (if all ≠ [] then
          found = all.mergeSort fun a b => decide (String.ofList a ≤ String.ofList b)
        else if hasGlob spec = false then found = [spec]
        else isRemoteUri spec = false ∧ found = []) := by
    cases all with
    | nil =>
      cases hasGlob spec <;> cases isRemoteUri spec <;> simp [eq_comm]
    | cons path all =>
      have hne : ((path :: all).mergeSort fun a b =>
          decide (String.ofList a ≤ String.ofList b)).isEmpty = false := by
        rw [List.isEmpty_eq_false_iff, ← List.length_pos_iff, List.length_mergeSort]
        exact Nat.succ_pos _
      rw [hne]
      simp [eq_comm]
  unfold matchedFiles candidates
  rw [hname]
  cases hdirectory : (!isRemoteUri spec && fileSystem.isDirectory spec) with
  | true =>
    cases hglob : fileSystem.glob (childPattern spec) with
    | error e => simp [hglob, Except.map]
    | ok all =>
      simp only [Bool.false_eq_true, if_false, if_true, hglob, Bool.not_true, Bool.false_or,
        Except.map, Except.ok.injEq, exists_eq_left']
      exact hmatches (all.filter isRootFileName)
  | false =>
    cases hglob : fileSystem.glob spec with
    | error e => simp [hglob]
    | ok all =>
      simp only [Bool.false_eq_true, if_false, hglob, Bool.not_false, Bool.true_or,
        List.filter_true, Except.ok.injEq, exists_eq_left']
      exact hmatches all

/-- The code finds the files a specification stands for. -/
theorem matchedFiles_ok_iff {spec : List Char} {found : List (List Char)} :
    matchedFiles fileSystem spec = .ok found ↔ FilesOf fileSystem spec found := by
  by_cases hexact : ExactName spec
  · have hmatched : matchedFiles fileSystem spec = .ok [spec] := by
      rw [matchedFiles, if_pos (exactName_iff.mpr hexact)]
    rw [hmatched]
    constructor
    · intro h
      rw [← Except.ok.inj h]
      exact .exact hexact
    · intro h
      cases h with
      | exact => rfl
      | sorted => contradiction
      | missing => contradiction
      | noMatch => contradiction
  rw [matchedFiles_candidates hexact]
  constructor
  · rintro ⟨all, hall, hfound⟩
    split_ifs at hfound with hne hglob
    · rw [hfound]
      refine .sorted all _ hexact hall (List.mergeSort_perm _ _) (mergeSort_paths all) ?_
      rw [← List.length_pos_iff, List.length_mergeSort]
      exact List.length_pos_iff.mpr hne
    · rw [not_not] at hne
      rw [hfound]
      exact .missing hexact (hne ▸ hall) hglob
    · rw [not_not] at hne
      rw [hfound.2]
      exact .noMatch hexact (hne ▸ hall) (Bool.eq_true_of_not_eq_false hglob) hfound.1
  · intro h
    cases h with
    | exact h => exact absurd h hexact
    | sorted all _ _ hall hperm hsorted hne =>
      refine ⟨all, hall, ?_⟩
      rw [if_pos fun hnil : all = [] => hne (hnil ▸ hperm).eq_nil]
      exact sorted_unique (hperm.trans (List.mergeSort_perm _ _).symm) hsorted
        (mergeSort_paths all)
    | missing _ hall hglob => exact ⟨[], hall, by rw [if_neg (not_not.mpr rfl), if_pos hglob]⟩
    | noMatch _ hall hglob hlocal =>
      refine ⟨[], hall, ?_⟩
      rw [if_neg (not_not.mpr rfl), if_neg (by rw [hglob]; decide)]
      exact ⟨hlocal, rfl⟩

/-! ### The loop -/

/-- An item with lines expands to what its lines and the rest expand to. -/
theorem Expands.of_lines {item path : List Char} {nested rest found : List (List Char)} {n : Nat}
    (hitem : trimInput item ≠ []) (hlist : listPath fileSystem (trimInput item) = .ok (some path))
    (hlines : readLocalList fileSystem path = .ok nested)
    (h : Expands fileSystem (nested ++ rest) n found) :
    Expands fileSystem (item :: rest) (n + 1) found := by
  obtain ⟨m, k, inner, outer, hnested, hrest, rfl, rfl⟩ := h.split
  exact .list hitem hlist hlines hnested hrest

/-- An item that is not blank is a list, or it is matched. -/
theorem Expands.item_cases {item : List Char} {rest found : List (List Char)} {size : Nat}
    (h : Expands fileSystem (item :: rest) size found) (hitem : trimInput item ≠ []) :
    (∃ path nested n, listPath fileSystem (trimInput item) = .ok (some path) ∧
      readLocalList fileSystem path = .ok nested ∧ size = n + 1 ∧
        Expands fileSystem (nested ++ rest) n found) ∨
    (∃ matched outer n, listPath fileSystem (trimInput item) = .ok none ∧
      matchedFiles fileSystem (trimInput item) = .ok matched ∧ size = n + 1 ∧
        Expands fileSystem rest n outer ∧ found = matched ++ outer) := by
  cases h with
  | blank hblank => exact absurd hblank hitem
  | list _ hlist hlines hnested hrest =>
    exact .inl ⟨_, _, _, hlist, hlines, rfl, hnested.append hrest⟩
  | files _ hlist hfound hrest =>
    exact .inr ⟨_, _, _, hlist, matchedFiles_ok_iff.mpr hfound, rfl, hrest, rfl⟩

/-- The loop returns the files of an expansion within its budget. -/
theorem resolveFrom_expands {budget : Nat} {specs files result : List (List Char)} :
    resolveFrom fileSystem budget specs files = .ok result ↔
      ∃ size found, Expands fileSystem specs size found ∧ size ≤ budget ∧
        result = found.foldl (addFirst id) files := by
  induction budget generalizing specs files with
  | zero =>
    cases specs with
    | nil =>
      rw [resolveFrom]
      constructor
      · intro h
        exact ⟨0, [], .nil, Nat.le_refl 0, (Except.ok.inj h).symm⟩
      · rintro ⟨_, _, h, _, rfl⟩
        cases h
        rfl
    | cons item rest =>
      rw [resolveFrom]
      refine ⟨(by intro h; cases h), ?_⟩
      rintro ⟨_, _, h, hsize, _⟩
      cases h <;> omega
  | succ budget ih =>
    cases specs with
    | nil =>
      rw [resolveFrom]
      constructor
      · intro h
        exact ⟨0, [], .nil, Nat.zero_le _, (Except.ok.inj h).symm⟩
      · rintro ⟨_, _, h, _, rfl⟩
        cases h
        rfl
    | cons item rest =>
      rw [resolveFrom]
      by_cases hitem : trimInput item = []
      · rw [if_pos (List.isEmpty_iff.mpr hitem), ih]
        constructor
        · rintro ⟨size, found, hrest, hsize, hresult⟩
          exact ⟨size + 1, found, .blank hitem hrest, by omega, hresult⟩
        · rintro ⟨_, _, h, hsize, hresult⟩
          cases h with
          | blank _ hrest => exact ⟨_, _, hrest, by omega, hresult⟩
          | list hno => exact absurd hitem hno
          | files hno => exact absurd hitem hno
      rw [if_neg (by rwa [List.isEmpty_iff])]
      cases hlist : listPath fileSystem (trimInput item) with
      | error e =>
        refine ⟨(by intro h; cases h), ?_⟩
        rintro ⟨_, _, h, _, _⟩
        obtain ⟨_, _, _, hsome, _⟩ | ⟨_, _, _, hnone, _⟩ := h.item_cases hitem
        · cases hlist.symm.trans hsome
        · cases hlist.symm.trans hnone
      | ok path =>
        cases path with
        | none =>
          dsimp only
          cases hfound : matchedFiles fileSystem (trimInput item) with
          | error e =>
            refine ⟨(by intro h; cases h), ?_⟩
            rintro ⟨_, _, h, _, _⟩
            obtain ⟨_, _, _, hsome, _⟩ | ⟨_, _, _, _, hfiles, _⟩ := h.item_cases hitem
            · cases hlist.symm.trans hsome
            · cases hfound.symm.trans hfiles
          | ok matched =>
            dsimp only
            rw [ih]
            constructor
            · rintro ⟨size, found, hrest, hsize, hresult⟩
              refine ⟨size + 1, matched ++ found,
                .files hitem hlist (matchedFiles_ok_iff.mp hfound) hrest, by omega, ?_⟩
              rw [hresult, List.foldl_append]
            · rintro ⟨_, _, h, hsize, hresult⟩
              obtain ⟨_, _, _, hsome, _⟩ | ⟨_, _, n, _, hfiles, rfl, hrest, rfl⟩ :=
                h.item_cases hitem
              · cases hlist.symm.trans hsome
              · obtain rfl := Except.ok.inj (hfound.symm.trans hfiles)
                refine ⟨n, _, hrest, by omega, ?_⟩
                rw [hresult, List.foldl_append]
        | some path =>
          dsimp only
          cases hlines : readLocalList fileSystem path with
          | error e =>
            refine ⟨(by intro h; cases h), ?_⟩
            rintro ⟨_, _, h, _, _⟩
            obtain ⟨_, _, _, hsome, hread, _⟩ | ⟨_, _, _, hnone, _⟩ := h.item_cases hitem
            · obtain rfl := Option.some.inj (Except.ok.inj (hlist.symm.trans hsome))
              cases hlines.symm.trans hread
            · cases hlist.symm.trans hnone
          | ok nested =>
            dsimp only
            rw [ih]
            constructor
            · rintro ⟨size, found, hboth, hsize, hresult⟩
              exact ⟨size + 1, found, hboth.of_lines hitem hlist hlines, by omega, hresult⟩
            · rintro ⟨_, _, h, hsize, hresult⟩
              obtain ⟨_, _, n, hsome, hread, rfl, hboth⟩ | ⟨_, _, _, hnone, _⟩ :=
                h.item_cases hitem
              · obtain rfl := Option.some.inj (Except.ok.inj (hlist.symm.trans hsome))
                obtain rfl := Except.ok.inj (hlines.symm.trans hread)
                exact ⟨n, _, hboth, by omega, hresult⟩
              · cases hlist.symm.trans hnone

/-- The message at the cap. -/
def expansionCap : String := "ROOT input expansion is unreasonably large"

/-- Where nothing that is met raises, only the cap does. -/
theorem resolveFrom_readable {budget : Nat} {specs files : List (List Char)}
    (h : ∀ item, Reached fileSystem specs item → Readable fileSystem item) :
    (∃ result, resolveFrom fileSystem budget specs files = .ok result) ∨
      resolveFrom fileSystem budget specs files = .error expansionCap := by
  induction budget generalizing specs files with
  | zero =>
    cases specs with
    | nil => exact Or.inl ⟨files, by rw [resolveFrom]⟩
    | cons item rest => exact Or.inr (by rw [resolveFrom]; rfl)
  | succ budget ih =>
    cases specs with
    | nil => exact Or.inl ⟨files, by rw [resolveFrom]⟩
    | cons item rest =>
      have hrest : ∀ other, Reached fileSystem rest other → Readable fileSystem other :=
        fun other hother => h other <| hother.mono fun spec hspec =>
          .given (List.mem_cons_of_mem _ hspec)
      have hgiven : Reached fileSystem (item :: rest) item := .given List.mem_cons_self
      rw [resolveFrom]
      by_cases hitem : trimInput item = []
      · rw [if_pos (List.isEmpty_iff.mpr hitem)]
        exact ih hrest
      rw [if_neg (by rwa [List.isEmpty_iff])]
      rcases h item hgiven with hblank | ⟨path, nested, hlist, hlines⟩ | ⟨found, hlist, hfound⟩
      · exact absurd hblank hitem
      · rw [hlist]
        dsimp only
        rw [hlines]
        refine ih fun other hother => h other (hother.mono fun spec hspec => ?_)
        rcases List.mem_append.mp hspec with hspec | hspec
        · exact .line hgiven hlist hlines hspec
        · exact .given (List.mem_cons_of_mem _ hspec)
      · rw [hlist]
        dsimp only
        rw [hfound]
        exact ih hrest

theorem keepFirst_eq_nil_iff {found : List (List Char)} : keepFirst id found = [] ↔ found = [] := by
  constructor
  · intro h
    by_contra hne
    obtain ⟨path, rest, rfl⟩ := List.exists_cons_of_ne_nil hne
    have hmem := (keys_foldl_addFirst (path :: rest) [] (id path)).mpr
      (Or.inr (List.mem_map_of_mem List.mem_cons_self))
    rw [← keepFirst, h] at hmem
    exact absurd hmem List.not_mem_nil
  · rintro rfl
    rfl

end Expansions

/-- `Resolve` returns exactly the files of an expansion within the cap, each where it is found
first. Where nothing that is met raises and every expansion is larger, it stops at the cap. -/
theorem resolve_expands (fileSystem : FileSystem) (parseJson : String → Except String Json)
    (raw : List Char) :
    (∀ files, resolve fileSystem parseJson raw = .ok files ↔
      ∃ specs size found, parseSpecifications parseJson raw = .ok specs ∧
        Expands fileSystem specs size found ∧ size ≤ 1000000 ∧ found ≠ [] ∧
        files = keepFirst id found) ∧
    (∀ specs, parseSpecifications parseJson raw = .ok specs →
      (∀ item, Reached fileSystem specs item → Readable fileSystem item) →
      (∀ size found, Expands fileSystem specs size found → 1000000 < size) →
      resolve fileSystem parseJson raw = .error expansionCap) := by
  refine ⟨fun files => ?_, fun specs hspecs hreadable hlarge => ?_⟩
  · rw [resolve]
    cases hspecs : parseSpecifications parseJson raw with
    | error e =>
      refine ⟨fun h => (nomatch h), ?_⟩
      rintro ⟨_, _, _, h, _⟩
      exact nomatch h
    | ok specs =>
      dsimp only
      constructor
      · intro h
        cases hrun : resolveFrom fileSystem 1000000 specs [] with
        | error e =>
          rw [hrun] at h
          exact nomatch h
        | ok result =>
          rw [hrun] at h
          dsimp only at h
          split_ifs at h with hempty
          obtain ⟨size, found, hexpands, hsize, rfl⟩ := resolveFrom_expands.mp hrun
          refine ⟨specs, size, found, rfl, hexpands, hsize, fun hnil => hempty ?_,
            (Except.ok.inj h).symm⟩
          rw [hnil]
          rfl
      · rintro ⟨_, size, found, hsame, hexpands, hsize, hne, rfl⟩
        obtain rfl := Except.ok.inj hsame
        have hrun : resolveFrom fileSystem 1000000 specs [] = .ok (keepFirst id found) :=
          resolveFrom_expands.mpr ⟨size, found, hexpands, hsize, rfl⟩
        rw [hrun]
        dsimp only
        rw [if_neg]
        rw [List.isEmpty_iff]
        exact fun hnil => hne (keepFirst_eq_nil_iff.mp hnil)
  · have hrun : resolveFrom fileSystem 1000000 specs [] = .error expansionCap := by
      refine (resolveFrom_readable hreadable).resolve_left ?_
      rintro ⟨result, hresult⟩
      obtain ⟨size, found, hexpands, hsize, -⟩ := resolveFrom_expands.mp hresult
      have hgt := hlarge size found hexpands
      omega
    rw [resolve, hspecs]
    dsimp only
    rw [hrun]

/-! ### A list that names itself -/

def selfName : List Char := "@/lists/all.uris".toList

def selfList : FileSystem where
  contents _ := some selfName
  isRegularFile _ := true
  isDirectory _ := false
  glob _ := .ok []

theorem selfList_trim : trimInput selfName = selfName := by decide

theorem selfList_path : listPath selfList selfName = .ok (some (selfName.drop 1)) := by
  decide +kernel

theorem selfList_lines : readLocalList selfList (selfName.drop 1) = .ok [selfName] := by
  decide +kernel

theorem selfList_unbounded {specs : List (List Char)} {size : Nat} {found : List (List Char)}
    (h : Expands selfList specs size found) : selfName ∉ specs := by
  induction h with
  | nil => exact List.not_mem_nil
  | blank hitem _ ih =>
    rw [List.mem_cons, not_or]
    refine ⟨?_, ih⟩
    rintro rfl
    rw [selfList_trim] at hitem
    exact absurd hitem (by decide)
  | list hitem hlist hlines _ _ ihNested ih =>
    rw [List.mem_cons, not_or]
    refine ⟨?_, ih⟩
    rintro rfl
    rw [selfList_trim, selfList_path] at hlist
    obtain rfl := Option.some.inj (Except.ok.inj hlist)
    rw [selfList_lines] at hlines
    obtain rfl := Except.ok.inj hlines
    exact ihNested List.mem_cons_self
  | files hitem hlist _ _ ih =>
    rw [List.mem_cons, not_or]
    refine ⟨?_, ih⟩
    rintro rfl
    rw [selfList_trim, selfList_path] at hlist
    exact nomatch hlist

theorem selfList_reached {item : List Char} (h : Reached selfList [selfName] item) :
    item = selfName := by
  induction h with
  | given h => exact List.mem_singleton.mp h
  | line _ hlist hlines hline ih =>
    rw [ih, selfList_trim, selfList_path] at hlist
    obtain rfl := Option.some.inj (Except.ok.inj hlist)
    rw [selfList_lines] at hlines
    obtain rfl := Except.ok.inj hlines
    exact List.mem_singleton.mp hline

/-- The cycle ends at the cap. -/
theorem selfList_capped :
    resolve selfList (fun _ => .error "no JSON") selfName = .error expansionCap := by
  refine (resolve_expands selfList (fun _ => .error "no JSON") selfName).2 [selfName]
    (by decide +kernel) (fun item hitem => ?_) fun size found h => ?_
  · rw [selfList_reached hitem]
    exact Or.inr (Or.inl ⟨_, _, by rw [selfList_trim, selfList_path], selfList_lines⟩)
  · exact absurd List.mem_cons_self (selfList_unbounded h)

end RootLake.Core

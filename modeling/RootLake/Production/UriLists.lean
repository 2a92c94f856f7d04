import RootLake.Core.InputResolver

/-!
# The URI lists of chunks

`index_chunk.sh` writes the URIs of a chunk line by line, and the index build resolves them as
the list `@inputs.uris`. The resolver reads a line as a specification, so a URI with a wildcard
stands for the files it matches (`uriList_iff`); every other URI stands for itself.
-/

namespace RootLake.Production

open RootLake.Core KeepFirst
open LogicalPath (getlines)
open Dataset (Json)

/-! ### What a manifest holds -/

/-- `str.isdigit` for one character: digits of other scripts count. -/
def isDigit (unicodeDigit : Char → Bool) (c : Char) : Bool :=
  c.isDigit || 128 ≤ c.toNat && unicodeDigit c

/-- `is_root_name`. -/
def isRootName (unicodeDigit : Char → Bool) (value : List Char) : Bool :=
  match afterLast ".root".toList (lastComponent ['/'] value) with
  | none => false
  | some suffix =>
      suffix.isEmpty || (suffix.head? = some '.' && !(suffix.drop 1).isEmpty &&
        (suffix.drop 1).all (isDigit unicodeDigit))

def isSchemeChar (c : Char) : Bool := c.isAlphanum || c = '+' || c = '-' || c = '.'

/-- The path of an existing file that has been resolved: it is absolute, and no component is
    empty. -/
structure LocalUri (fileSystem : FileSystem) (uri : List Char) : Prop where
  absolute : uri.head? = some '/'
  resolved : ¬ ['/', '/'] <:+: uri
  regular : fileSystem.isRegularFile uri = true

/-- A scheme other than `file` and what it names. -/
def RemoteUri (uri : List Char) : Prop :=
  ∃ scheme rest, uri = scheme ++ "://".toList ++ rest ∧ scheme ≠ [] ∧ scheme ≠ "file".toList ∧
    ∀ c ∈ scheme, isSchemeChar c = true

/-- A URI that discovery puts into a manifest. -/
structure ManifestUri (fileSystem : FileSystem) (unicodeDigit : Char → Bool) (uri : List Char) :
    Prop where
  kind : LocalUri fileSystem uri ∨ RemoteUri uri
  rootName : isRootName unicodeDigit uri = true
  oneLine : '\n' ∉ uri

/-- The text of `inputs.uris`. -/
def inputsUris (uris : List (List Char)) : List Char :=
  uris.flatMap fun uri => uri ++ ['\n']

def listFile (stage : List Char) : List Char := stage ++ "/inputs.uris".toList

/-- What DuckDB's and the local file systems promise: a file is no directory, and without a
    wildcard its path matches just the file. -/
structure FileSystemSound (fileSystem : FileSystem) : Prop where
  not_directory : ∀ path, fileSystem.isRegularFile path = true →
    fileSystem.isDirectory path = false
  glob_file : ∀ path, fileSystem.isRegularFile path = true → hasGlob path = false →
    fileSystem.glob path = .ok [path]

/-! ### Names of ROOT files -/

theorem afterLast_split {marker text suffix : List Char} (h : afterLast marker text = some suffix) :
    ∃ front, text = front ++ marker ++ suffix := by
  induction text with
  | nil => exact nomatch h
  | cons c rest ih =>
    rw [afterLast] at h
    cases hrest : afterLast marker rest with
    | some found =>
      rw [hrest] at h
      obtain ⟨front, hfront⟩ := ih (hrest.trans h)
      exact ⟨c :: front, by rw [hfront]; rfl⟩
    | none =>
      rw [hrest] at h
      dsimp only at h
      split_ifs at h with hmarker
      obtain ⟨tail, htail⟩ := List.isPrefixOf_iff_prefix.mp hmarker
      refine ⟨[], ?_⟩
      rw [← Option.some.inj h, ← htail, List.drop_left, List.nil_append]

theorem lastComponent_suffix (delimiters path : List Char) :
    lastComponent delimiters path <:+ path := by
  rw [lastComponent, ← List.reverse_prefix, List.reverse_reverse]
  exact List.takeWhile_prefix _

section RootNames

variable {unicodeDigit : Char → Bool} {uri : List Char}

/-- A name ends with `.root`, or with `.root.` and digits. -/
theorem rootName_cases (h : isRootName unicodeDigit uri = true) :
    ∃ front, lastComponent ['/'] uri = front ++ ".root".toList ∨
      ∃ digits, digits ≠ [] ∧ (∀ c ∈ digits, isDigit unicodeDigit c = true) ∧
        lastComponent ['/'] uri = front ++ ".root.".toList ++ digits := by
  rw [isRootName] at h
  split at h
  · exact absurd h (by decide)
  rename_i suffix hsuffix
  obtain ⟨front, hfront⟩ := afterLast_split hsuffix
  refine ⟨front, ?_⟩
  cases suffix with
  | nil => exact Or.inl (by rw [hfront, List.append_nil])
  | cons c digits =>
    simp only [List.isEmpty_cons, List.head?_cons, List.drop_succ_cons, List.drop_zero,
      Bool.false_or, Bool.and_eq_true, decide_eq_true_eq, Option.some.injEq, Bool.not_eq_true',
      List.isEmpty_eq_false_iff, List.all_eq_true] at h
    obtain ⟨⟨rfl, hne⟩, hdigits⟩ := h
    refine Or.inr ⟨digits, hne, hdigits, ?_⟩
    rw [hfront, List.append_assoc, List.append_assoc]
    rfl

theorem isDigit_not {c : Char} (h : isDigit unicodeDigit c = true) :
    isBlank c = false ∧ c ≠ '.' ∧ c ≠ 't' ∧ c ≠ 'l' ∧ c ≠ 'm' ∧ c ≠ 'u' := by
  rw [isDigit, Bool.or_eq_true, Bool.and_eq_true, decide_eq_true_eq] at h
  have hnot (d : Char) (hd : d.isDigit = false ∧ d.toNat < 128) : c ≠ d := by
    rintro rfl
    rcases h with h | h
    · exact absurd h (by rw [hd.1]; decide)
    · omega
  refine ⟨?_, hnot _ (by decide), hnot _ (by decide), hnot _ (by decide), hnot _ (by decide),
    hnot _ (by decide)⟩
  simp only [isBlank, Bool.or_eq_false_iff, decide_eq_false_iff_not]
  exact ⟨⟨⟨hnot _ (by decide), hnot _ (by decide)⟩, hnot _ (by decide)⟩, hnot _ (by decide)⟩

theorem rootName_last (h : isRootName unicodeDigit uri = true) {c : Char}
    (hc : uri.getLast? = some c) : isBlank c = false := by
  obtain ⟨before, hbefore⟩ := lastComponent_suffix ['/'] uri
  obtain ⟨front, hname | ⟨digits, hne, hdigits, hname⟩⟩ := rootName_cases h
  · rw [← hbefore, hname, ← List.append_assoc, List.getLast?_append_of_ne_nil _ (by decide)] at hc
    obtain rfl := Option.some.inj hc
    decide
  · rw [← hbefore, hname, ← List.append_assoc, List.getLast?_append_of_ne_nil _ hne] at hc
    exact (isDigit_not (hdigits c (List.mem_of_getLast? hc))).1

/-- A ROOT file does not look like a list. -/
theorem rootName_extension (h : isRootName unicodeDigit uri = true) :
    listExtensions.contains (extension uri) = false := by
  have hextension (front tail : List Char) (hname : lastComponent ['/'] uri = front ++ '.' :: tail)
      (hdot : '.' ∉ tail) : extension uri = [] ∨ extension uri = '.' :: tail := by
    have htail : ((lastComponent ['/'] uri).reverse.takeWhile (· ≠ '.')).reverse = tail := by
      rw [hname, List.reverse_append, List.reverse_cons, List.append_assoc,
        List.takeWhile_append_of_pos (by
          intro c hc
          rw [decide_eq_true_eq]
          rintro rfl
          exact hdot (List.mem_reverse.mp hc))]
      rw [List.singleton_append, List.takeWhile_cons_of_neg (by decide), List.append_nil,
        List.reverse_reverse]
    unfold extension
    dsimp only
    rw [htail]
    split
    · exact Or.inl rfl
    · exact Or.inr rfl
  obtain ⟨front, hname | ⟨digits, hne, hdigits, hname⟩⟩ := rootName_cases h
  · rcases hextension front "root".toList hname (by decide) with hext | hext
    · rw [hext]
      decide
    · rw [hext]
      decide
  · obtain ⟨c, rest, rfl⟩ := List.exists_cons_of_ne_nil hne
    obtain ⟨-, -, ht, hl, hm, hu⟩ := isDigit_not (hdigits c List.mem_cons_self)
    have hdot : '.' ∉ c :: rest := fun hmem => (isDigit_not (hdigits '.' hmem)).2.1 rfl
    have hname' : lastComponent ['/'] uri = (front ++ ".root".toList) ++ '.' :: c :: rest := by
      rw [hname, List.append_assoc, List.append_assoc]
      rfl
    rcases hextension _ _ hname' hdot with hext | hext
    · rw [hext]
      decide
    · rw [hext]
      simp [listExtensions, ht, hl, hm, hu]

end RootNames

/-! ### Lines -/

theorem isRemoteUri_of_local {uri : List Char} (h : ¬ ['/', '/'] <:+: uri) :
    isRemoteUri uri = false := by
  rw [isRemoteUri, Bool.and_eq_false_iff]
  right
  rw [List.any_eq_false]
  intro rest hrest hmarker
  obtain ⟨tail, htail⟩ := List.isPrefixOf_iff_prefix.mp hmarker
  obtain ⟨front, hfront⟩ := (List.mem_tails _ _).mp hrest
  refine h ⟨front ++ [':'], tail, ?_⟩
  rw [← hfront, ← htail]
  simp

theorem isRemoteUri_of_scheme {scheme rest : List Char} (hne : scheme ≠ [])
    (hscheme : ∀ c ∈ scheme, isSchemeChar c = true) :
    isRemoteUri (scheme ++ "://".toList ++ rest) = true := by
  obtain ⟨c, scheme, rfl⟩ := List.exists_cons_of_ne_nil hne
  rw [isRemoteUri, Bool.and_eq_true]
  constructor
  · have hcolon : c ≠ ':' := by
      rintro rfl
      exact absurd (hscheme ':' List.mem_cons_self) (by decide)
    have hcolon' : ':' ≠ c := fun h => hcolon h.symm
    rw [Bool.not_eq_true', ← Bool.not_eq_true, List.isPrefixOf_iff_prefix]
    exact fun hmarker => hcolon' (List.cons_prefix_cons.mp hmarker).1
  · rw [List.any_eq_true]
    refine ⟨"://".toList ++ rest, (List.mem_tails _ _).mpr ⟨c :: scheme, ?_⟩, ?_⟩
    · exact (List.append_assoc _ _ _).symm
    · exact List.isPrefixOf_iff_prefix.mpr (List.prefix_append _ _)

section Lines

variable {fileSystem : FileSystem} {unicodeDigit : Char → Bool} {uri : List Char}

/-- A URI begins like a path or a scheme. -/
theorem manifestUri_head (h : ManifestUri fileSystem unicodeDigit uri) :
    ∃ c, uri.head? = some c ∧ isBlank c = false ∧ c ≠ '#' ∧ c ≠ '@' := by
  rcases h.kind with hlocal | ⟨scheme, rest, rfl, hne, -, hscheme⟩
  · exact ⟨'/', hlocal.absolute, by decide⟩
  · obtain ⟨c, scheme, rfl⟩ := List.exists_cons_of_ne_nil hne
    have hc := hscheme c List.mem_cons_self
    refine ⟨c, rfl, ?_, ?_, ?_⟩
    · simp only [isBlank, Bool.or_eq_false_iff, decide_eq_false_iff_not]
      refine ⟨⟨⟨?_, ?_⟩, ?_⟩, ?_⟩
      all_goals
        rintro rfl
        exact absurd hc (by decide)
    · rintro rfl
      exact absurd hc (by decide)
    · rintro rfl
      exact absurd hc (by decide)

/-- No line of a list is a list. -/
theorem manifestUri_plain (h : ManifestUri fileSystem unicodeDigit uri) :
    Plain fileSystem uri ∧ uri.head? ≠ some '#' := by
  obtain ⟨c, hc, hblank, hhash, hat⟩ := manifestUri_head h
  refine ⟨⟨?_, ?_, ?_⟩, ?_⟩
  · refine trimInput_eq_self (fun d hd => ?_) fun d hd => rootName_last h.rootName hd
    rw [hc] at hd
    rwa [← Option.some.inj hd]
  · rintro rfl
    exact nomatch hc
  · have himplicit : isImplicitList fileSystem uri = false := by
      rw [isImplicitList, rootName_extension h.rootName, Bool.and_false, Bool.false_and]
    rw [listPath, if_neg (by rw [hc]; simp [hat]), himplicit]
    rfl
  · rw [hc]
    simp [hhash]

/-- Without a wildcard a URI stands for itself. -/
theorem matchedFiles_plain (sound : FileSystemSound fileSystem)
    (h : ManifestUri fileSystem unicodeDigit uri) (hglob : hasGlob uri = false) :
    matchedFiles fileSystem uri = .ok [uri] := by
  unfold matchedFiles
  rw [hglob]
  split
  · rfl
  rename_i hexact
  rcases h.kind with hlocal | ⟨scheme, rest, rfl, hne, -, hscheme⟩
  · have hremote := isRemoteUri_of_local hlocal.resolved
    rw [hremote, sound.not_directory uri hlocal.regular]
    simp [sound.glob_file uri hlocal.regular hglob]
  · rw [isRemoteUri_of_scheme hne hscheme, Bool.or_true] at hexact
    exact absurd rfl hexact

end Lines

/-! ### Lists -/

section Lists

variable {fileSystem : FileSystem} {unicodeDigit : Char → Bool} {uris : List (List Char)}

theorem getlines_inputsUris (h : ∀ uri ∈ uris, '\n' ∉ uri) :
    getlines '\n' (inputsUris uris) = uris := by
  induction uris with
  | nil => rfl
  | cons uri uris ih =>
    rw [inputsUris, List.flatMap_cons, List.append_assoc, List.singleton_append,
      getlines_line (h uri List.mem_cons_self)]
    exact congrArg (uri :: ·) (ih fun other hother => h other (List.mem_cons_of_mem _ hother))

theorem readLocalList_inputsUris {path : List Char}
    (hcontents : fileSystem.contents path = some (inputsUris uris))
    (h : ∀ uri ∈ uris, ManifestUri fileSystem unicodeDigit uri) :
    readLocalList fileSystem path = .ok uris := by
  have htrim : uris.map trimInput = uris := by
    conv_rhs => rw [← List.map_id uris]
    exact List.map_congr_left fun uri huri => (manifestUri_plain (h uri huri)).1.trimmed
  rw [readLocalList, hcontents]
  dsimp only
  rw [getlines_inputsUris fun uri huri => (h uri huri).oneLine, htrim, List.filter_eq_self.mpr]
  intro uri huri
  obtain ⟨hplain, hhash⟩ := manifestUri_plain (h uri huri)
  simp [hplain.nonempty, hhash]

theorem trimInput_listFile (stage : List Char) :
    trimInput ('@' :: listFile stage) = '@' :: listFile stage := by
  have hlast : ('@' :: listFile stage).getLast? = some 's' := by
    rw [listFile, ← List.cons_append, List.getLast?_append_of_ne_nil _ (by decide)]
    rfl
  refine trimInput_eq_self (fun c hc => ?_) fun c hc => ?_
  · obtain rfl := Option.some.inj hc
    decide
  · rw [hlast] at hc
    obtain rfl := Option.some.inj hc
    decide

/-- A path without commas is read as one specification. -/
theorem parseSpecifications_list (parseJson : String → Except String Json) {stage : List Char}
    (hcomma : ',' ∉ stage) :
    parseSpecifications parseJson ('@' :: listFile stage) = .ok ['@' :: listFile stage] := by
  have hlines : getlines ',' ('@' :: listFile stage) = ['@' :: listFile stage] := by
    refine getlines_of_not_mem (fun h => ?_) (List.cons_ne_nil _ _)
    rw [listFile, List.mem_cons, List.mem_append] at h
    rcases h with h | h | h
    · exact absurd h (by decide)
    · exact hcomma h
    · exact absurd h (by decide)
  unfold parseSpecifications
  rw [trimInput_listFile, if_neg (by simp), hlines]
  simp [trimInput_listFile]

/-- What the line of a URI stands for: the URI, or with a wildcard the files it matches. -/
def LineFiles (fileSystem : FileSystem) (uri : List Char) (found : List (List Char)) : Prop :=
  if hasGlob uri then matchedFiles fileSystem uri = .ok found else found = [uri]

/-- The URIs are what the lines stand for, each file where it is found first. -/
def WildcardsAgree (fileSystem : FileSystem) (uris : List (List Char)) : Prop :=
  ∃ found, List.Forall₂ (LineFiles fileSystem) uris found ∧ keepFirst id found.flatten = uris

theorem wildcardsAgree_of_plain (h : ∀ uri ∈ uris, hasGlob uri = false) (hnodup : uris.Nodup) :
    WildcardsAgree fileSystem uris := by
  refine ⟨uris.map fun uri => [uri], ?_, ?_⟩
  · rw [List.forall₂_map_right_iff, List.forall₂_same]
    intro uri huri
    rw [LineFiles, if_neg (by rw [h uri huri]; decide)]
  · rw [← List.flatMap_def, List.flatMap_singleton', keepFirst_eq_self (by rwa [List.map_id])]

theorem lineFiles_iff (sound : FileSystemSound fileSystem) {found : List (List (List Char))}
    (huris : ∀ uri ∈ uris, ManifestUri fileSystem unicodeDigit uri) :
    List.Forall₂ (fun uri files => matchedFiles fileSystem uri = .ok files) uris found ↔
      List.Forall₂ (LineFiles fileSystem) uris found := by
  induction uris generalizing found with
  | nil => rw [List.forall₂_nil_left_iff, List.forall₂_nil_left_iff]
  | cons uri uris ih =>
    have hmore := fun found => @ih found fun other hother =>
      huris other (List.mem_cons_of_mem _ hother)
    have hline (files : List (List Char)) :
        matchedFiles fileSystem uri = .ok files ↔ LineFiles fileSystem uri files := by
      unfold LineFiles
      split
      · exact Iff.rfl
      · rename_i hglob
        rw [matchedFiles_plain sound (huris uri List.mem_cons_self)
          (Bool.not_eq_true _ ▸ hglob), Except.ok.injEq]
        exact eq_comm
    rw [List.forall₂_cons_left_iff, List.forall₂_cons_left_iff]
    simp only [hline, hmore]

end Lists

/-- The list of a chunk resolves to the chunk's URIs exactly when there are fewer than a million
and no wildcard in them matches another file. -/
theorem uriList_iff {fileSystem : FileSystem} (sound : FileSystemSound fileSystem)
    (unicodeDigit : Char → Bool) (parseJson : String → Except String Json) {stage : List Char}
    (hcomma : ',' ∉ stage) (hlocal : isRemoteUri (listFile stage) = false)
    {uris : List (List Char)} (hne : uris ≠ [])
    (hcontents : fileSystem.contents (listFile stage) = some (inputsUris uris))
    (huris : ∀ uri ∈ uris, ManifestUri fileSystem unicodeDigit uri) :
    resolve fileSystem parseJson ('@' :: listFile stage) = .ok uris ↔
      uris.length < 1000000 ∧ WildcardsAgree fileSystem uris := by
  have hpath : (listFile stage).isEmpty = false := by
    rw [List.isEmpty_eq_false_iff, listFile]
    exact List.append_ne_nil_of_right_ne_nil _ (by decide)
  have hlist : listPath fileSystem ('@' :: listFile stage) = .ok (some (listFile stage)) := by
    simp [listPath, hlocal, hpath]
  have hfirst (budget : Nat) : resolveFrom fileSystem (budget + 1) ['@' :: listFile stage] [] =
      resolveFrom fileSystem budget uris [] := by
    rw [resolveFrom]
    simp only [trimInput_listFile, List.isEmpty_cons, Bool.false_eq_true, if_false, hlist,
      readLocalList_inputsUris hcontents huris, List.append_nil]
  have hrun := resolveFrom_ok_iff (fun uri huri => (manifestUri_plain (huris uri huri)).1) 999999
    [] uris
  have hresult : resolve fileSystem parseJson ('@' :: listFile stage) = .ok uris ↔
      resolveFrom fileSystem 999999 uris [] = .ok uris := by
    rw [resolve, parseSpecifications_list parseJson hcomma]
    dsimp only
    rw [hfirst 999999]
    cases resolveFrom fileSystem 999999 uris [] with
    | error e => simp
    | ok files =>
      dsimp only
      split
      · rename_i hempty
        rw [List.isEmpty_iff.mp hempty]
        exact ⟨(by intro h; cases h), fun h => absurd (Except.ok.inj h).symm hne⟩
      · exact Iff.rfl
  rw [hresult, hrun, Nat.lt_succ_iff]
  refine and_congr_right fun _ => exists_congr fun found => ?_
  rw [lineFiles_iff sound huris]
  rfl

/-! ### A file with brackets in its name -/

def stagingDirectory : List Char := "/out/.staging-c1-7".toList

def bracketFile : List Char := "/data/run[1].root".toList

def plainFile : List Char := "/data/run1.root".toList

/-- Matching a name, for patterns whose only wildcards are brackets around one character. -/
def matchesName : List Char → List Char → Bool
  | '[' :: a :: ']' :: pattern, c :: name => a = c && matchesName pattern name
  | a :: pattern, c :: name => a = c && matchesName pattern name
  | [], [] => true
  | _, _ => false

/-- A file system with the ROOT files of a directory and the list of a chunk. A pattern that
matches nothing is looked up as a path. -/
def withFiles (files uris : List (List Char)) : FileSystem where
  contents path := if path = listFile stagingDirectory then some (inputsUris uris) else none
  isRegularFile path := files.contains path || path = listFile stagingDirectory
  isDirectory _ := false
  glob pattern :=
    .ok (if hasGlob pattern && files.any (matchesName pattern) then
        files.filter (matchesName pattern)
      else if files.contains pattern || pattern = listFile stagingDirectory then [pattern]
      else [])

theorem withFiles_sound (files uris : List (List Char)) :
    FileSystemSound (withFiles files uris) := by
  refine ⟨fun _ _ => rfl, fun path hregular hglob => ?_⟩
  have hregular' : (files.contains path || path = listFile stagingDirectory) = true := hregular
  simp only [withFiles, hglob, Bool.false_and, Bool.false_eq_true, if_false]
  rw [if_pos hregular']

theorem withFiles_uri {files uris : List (List Char)} {file : List Char} (hmem : file ∈ files)
    (habsolute : file.head? = some '/') (hresolved : ¬ ['/', '/'] <:+: file)
    (hname : isRootName (fun _ => false) file = true) (hline : '\n' ∉ file) :
    ManifestUri (withFiles files uris) (fun _ => false) file :=
  ⟨Or.inl ⟨habsolute, hresolved, by simp [withFiles, hmem]⟩, hname, hline⟩

/-- Beside `run1.root` the name `run[1].root` is read as a pattern for the other file. -/
theorem bracket_file_lost :
    FileSystemSound (withFiles [plainFile, bracketFile] [bracketFile]) ∧
      ManifestUri (withFiles [plainFile, bracketFile] [bracketFile]) (fun _ => false)
        bracketFile ∧
      resolve (withFiles [plainFile, bracketFile] [bracketFile]) (fun _ => .error "no JSON")
        ('@' :: listFile stagingDirectory) ≠ .ok [bracketFile] := by
  refine ⟨withFiles_sound _ _, withFiles_uri (by decide) rfl (by decide +kernel)
    (by decide +kernel) (by decide), ?_⟩
  decide +kernel

/-- Without brackets each name stands for itself. -/
theorem plain_file_round_trips :
    resolve (withFiles [plainFile, bracketFile] [plainFile]) (fun _ => .error "no JSON")
      ('@' :: listFile stagingDirectory) = .ok [plainFile] := by
  refine (uriList_iff (withFiles_sound _ _) (fun _ => false) _ (by decide) (by decide +kernel)
    (by decide) rfl fun uri huri => ?_).mpr
    ⟨by decide, wildcardsAgree_of_plain (by decide +kernel) (by decide)⟩
  rw [List.mem_singleton.mp huri]
  exact withFiles_uri (by decide) rfl (by decide +kernel) (by decide +kernel) (by decide)

end RootLake.Production

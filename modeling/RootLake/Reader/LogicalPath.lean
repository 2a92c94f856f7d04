import Mathlib.Data.List.DropRight

/-!
# Logical paths

A logical path names a leaf below a ROOT class, such as `/PaEvent/vecHit/u`. The text is
normalized for storing and comparing, and split into components for resolving; the split
skips empty components, so that repeated slashes change the text of a path but not what it
names. The spelling of a text keeps both: its components, each with the number of slashes
ahead of it.
-/

namespace RootLake.LogicalPath

def normalizePath : List Char → Except String (List Char)
  | [] => .error "ROOT logical path is empty"
  | c :: rest =>
      -- `pop_back` stops before the slash in front
      let path := if c = '/' then rest else c :: rest
      .ok ('/' :: path.rdropWhile (· = '/'))

/-- `std::getline` until the stream ends. -/
def getlines (delimiter : Char) : List Char → List (List Char)
  | [] => []
  | c :: rest =>
      if c = delimiter then [] :: getlines delimiter rest
      else
        match getlines delimiter rest with
        | [] => [[c]]
        | line :: lines => (c :: line) :: lines

structure ParsedPath where
  rootClass : List Char
  fields : List (List Char)
  deriving DecidableEq

def components (path : List Char) : List (List Char) :=
  (getlines '/' path).filter fun component => !component.isEmpty

def parsePath (rawPath : List Char) : Except String ParsedPath :=
  match normalizePath rawPath with
  | .error e => .error e
  | .ok path =>
      match components (path.drop 1) with
      | rootClass :: field :: fields => .ok ⟨rootClass, field :: fields⟩
      | _ =>
          .error ("Expected a leaf path such as /PaEvent/vecHit/u, got: " ++ String.ofList rawPath)

/-! ### Spellings -/

/-- A character ahead of a spelling. -/
def spellChar (c : Char) : List (Nat × List Char) → List (Nat × List Char)
  | [] => if c = '/' then [] else [(0, [c])]
  | (slashes, component) :: parts =>
      if c = '/' then (slashes + 1, component) :: parts
      else if slashes = 0 then (0, c :: component) :: parts
      else (0, [c]) :: (slashes, component) :: parts

/-- The components of a text, each with the number of slashes ahead of it. -/
def spelling : List Char → List (Nat × List Char)
  | [] => []
  | c :: rest => spellChar c (spelling rest)

def render (parts : List (Nat × List Char)) : List Char :=
  parts.flatMap fun part => List.replicate part.1 '/' ++ part.2

/-- Normalizing leaves at least one slash ahead of the first component. -/
def leading : List (Nat × List Char) → List (Nat × List Char)
  | [] => []
  | (slashes, component) :: parts => (max 1 slashes, component) :: parts

/-- The slashes ahead of each component, as normalizing leaves them. -/
def slashRuns (path : List Char) : List Nat := (leading (spelling path)).map Prod.fst

theorem map_snd_leading (parts : List (Nat × List Char)) :
    (leading parts).map Prod.snd = parts.map Prod.snd := by
  cases parts with
  | nil => rfl
  | cons part parts => rfl

theorem getlines_nil_iff {text : List Char} : getlines '/' text = [] ↔ text = [] := by
  cases text with
  | nil => exact ⟨fun _ => rfl, fun _ => rfl⟩
  | cons c rest =>
    refine ⟨fun h => ?_, fun h => (nomatch h)⟩
    rw [getlines] at h
    split_ifs at h
    split at h
    · exact nomatch h
    · exact nomatch h

/-- The first component of a text starts at once just when no slash is ahead. -/
theorem spelling_head {text : List Char} {part : Nat × List Char}
    {parts : List (Nat × List Char)} (h : spelling text = part :: parts) :
    part.1 = 0 ↔ text.head? ≠ some '/' := by
  cases text with
  | nil => exact nomatch h
  | cons c rest =>
    rw [List.head?_cons, Ne, Option.some.injEq]
    rw [spelling] at h
    cases hrest : spelling rest with
    | nil =>
      rw [hrest, spellChar] at h
      split_ifs at h with hc
      obtain ⟨rfl, -⟩ := List.cons.inj h
      exact ⟨fun _ => hc, fun _ => rfl⟩
    | cons next more =>
      rw [hrest, spellChar] at h
      split_ifs at h with hc hzero
      · obtain ⟨rfl, -⟩ := List.cons.inj h
        exact ⟨fun h => absurd h (Nat.succ_ne_zero _), fun h => absurd hc h⟩
      · obtain ⟨rfl, -⟩ := List.cons.inj h
        exact ⟨fun _ => hc, fun _ => rfl⟩
      · obtain ⟨rfl, -⟩ := List.cons.inj h
        exact ⟨fun _ => hc, fun _ => rfl⟩

theorem getlines_head {text line : List Char} {lines : List (List Char)}
    (h : getlines '/' text = line :: lines) : line = [] ↔ text.head? = some '/' := by
  cases text with
  | nil => exact nomatch h
  | cons c rest =>
    rw [List.head?_cons, Option.some.injEq]
    rw [getlines] at h
    split_ifs at h with hc
    · obtain ⟨rfl, -⟩ := List.cons.inj h
      exact ⟨fun _ => hc, fun _ => rfl⟩
    · split at h
      · obtain ⟨rfl, -⟩ := List.cons.inj h
        exact ⟨fun h => (nomatch h), fun h => absurd h hc⟩
      · obtain ⟨rfl, -⟩ := List.cons.inj h
        exact ⟨fun h => (nomatch h), fun h => absurd h hc⟩

theorem components_slash (rest : List Char) : components ('/' :: rest) = components rest := by
  rw [components, getlines, if_pos rfl, List.filter_cons_of_neg (by decide)]
  rfl

/-- The spelling has the components of the text. -/
theorem components_eq (text : List Char) : components text = (spelling text).map Prod.snd := by
  induction text with
  | nil => rfl
  | cons c rest ih =>
    by_cases hc : c = '/'
    · subst hc
      rw [components_slash, ih, spelling]
      cases spelling rest with
      | nil => rfl
      | cons part parts => rfl
    · cases hlines : getlines '/' rest with
      | nil =>
        obtain rfl := getlines_nil_iff.mp hlines
        simp [components, getlines, spelling, spellChar, hc]
      | cons line lines =>
        have hcomponents : components (c :: rest) =
            (c :: line) :: lines.filter fun component => !component.isEmpty := by
          rw [components, getlines, if_neg hc, hlines]
          simp only
          rw [List.filter_cons_of_pos (by simp)]
        have hhead := getlines_head hlines
        rw [components, hlines] at ih
        rw [hcomponents, spelling]
        by_cases hline : line = []
        · -- a slash ends the component
          rw [hline, List.filter_cons_of_neg (by decide)] at ih
          cases hrest : spelling rest with
          | nil =>
            rw [ih, hrest, hline, spellChar, if_neg hc]
            rfl
          | cons part parts =>
            have hslashes : part.1 ≠ 0 := fun h => (spelling_head hrest).mp h (hhead.mp hline)
            rw [ih, hrest, hline, spellChar, if_neg hc, if_neg hslashes]
            rfl
        · rw [List.filter_cons_of_pos (by simpa using hline)] at ih
          cases hrest : spelling rest with
          | nil =>
            rw [hrest] at ih
            exact nomatch ih
          | cons part parts =>
            have hslashes : part.1 = 0 :=
              (spelling_head hrest).mpr fun h => hline (hhead.mpr h)
            rw [hrest] at ih
            obtain ⟨hfirst, hmore⟩ := List.cons.inj ih
            rw [hfirst, hmore, spellChar, if_neg hc, if_pos hslashes]
            rfl

theorem component_ne_nil {text : List Char} {part : Nat × List Char} (h : part ∈ spelling text) :
    part.2 ≠ [] := by
  have hmem : part.2 ∈ components text := components_eq text ▸ List.mem_map_of_mem h
  simpa using (List.mem_filter.mp hmem).2

theorem rdropWhile_cons (c : Char) (rest : List Char) :
    (c :: rest).rdropWhile (· = '/') =
      if rest.rdropWhile (· = '/') = [] then if c = '/' then [] else [c]
      else c :: rest.rdropWhile (· = '/') := by
  simp only [List.rdropWhile, List.reverse_cons, List.dropWhile_append, List.isEmpty_iff,
    List.reverse_eq_nil_iff]
  split_ifs with hrest hc
  · rw [List.dropWhile_cons_of_pos (by simpa using hc), List.dropWhile_nil, List.reverse_nil]
  · rw [List.dropWhile_cons_of_neg (by simpa using hc), List.reverse_singleton]
  · rw [List.reverse_append, List.reverse_singleton, List.singleton_append]

/-- Slashes at the end belong to no component. -/
theorem spelling_rdropWhile (text : List Char) :
    spelling (text.rdropWhile (· = '/')) = spelling text := by
  induction text with
  | nil => rfl
  | cons c rest ih =>
    have hstep := congrArg (spellChar c) ih
    rw [rdropWhile_cons]
    split_ifs with hrest hc
    · rw [hrest, spelling, spellChar, if_pos hc] at hstep
      exact hstep
    · rw [hrest] at hstep
      exact hstep
    · exact hstep

/-- A text without slashes at its end is read off its spelling. -/
theorem render_spelling (text : List Char) :
    render (spelling text) = text.rdropWhile (· = '/') := by
  induction text with
  | nil => rfl
  | cons c rest ih =>
    rw [rdropWhile_cons, ← ih, spelling]
    cases hrest : spelling rest with
    | nil =>
      rw [if_pos (show render [] = [] from rfl), spellChar]
      split_ifs
      · rfl
      · rfl
    | cons part parts =>
      obtain ⟨slashes, component⟩ := part
      have hsome : render ((slashes, component) :: parts) ≠ [] := by
        have hne : component ≠ [] := component_ne_nil (hrest ▸ List.mem_cons_self)
        rw [render, List.flatMap_cons, Ne, List.append_eq_nil_iff, List.append_eq_nil_iff]
        exact fun h => hne h.1.2
      rw [if_neg hsome, spellChar]
      split_ifs with hc hzero
      · rw [hc]
        rfl
      · rw [hzero]
        rfl
      · rfl

/-! ### Normal paths -/

theorem normalizePath_normal {path normal : List Char} (h : normalizePath path = .ok normal) :
    normalizePath normal = .ok normal := by
  cases path with
  | nil => exact nomatch h
  | cons c rest =>
    obtain rfl := Except.ok.inj h
    rw [normalizePath, if_pos rfl, List.rdropWhile_idempotent]

/-- The spelling of a normal path: that of the path, with a slash ahead. -/
theorem spelling_normalizePath {path normal : List Char} (h : normalizePath path = .ok normal) :
    spelling normal = leading (spelling path) := by
  cases path with
  | nil => exact nomatch h
  | cons c rest =>
    obtain rfl := Except.ok.inj h
    rw [spelling, spelling_rdropWhile]
    by_cases hc : c = '/'
    · subst hc
      rw [if_pos rfl, spelling]
      cases spelling rest with
      | nil => rfl
      | cons part parts =>
        rw [spellChar, if_pos rfl, leading, Nat.max_eq_right (Nat.succ_pos _)]
    · rw [if_neg hc]
      cases hparts : spelling (c :: rest) with
      | nil => rfl
      | cons part parts =>
        have hzero : part.1 = 0 := (spelling_head hparts).mpr fun h => hc (Option.some.inj h)
        rw [spellChar, if_pos rfl, leading, hzero]
        rfl

/-- A normal path with a component is read off its spelling. -/
theorem normal_eq_render {path normal : List Char} (h : normalizePath path = .ok normal) :
    spelling path ≠ [] → normal = render (leading (spelling path)) := by
  intro hsome
  have hspelling := spelling_normalizePath h
  rw [← hspelling, render_spelling]
  cases path with
  | nil => exact absurd rfl hsome
  | cons c rest =>
    obtain rfl := Except.ok.inj h
    generalize (if c = '/' then rest else c :: rest) = text at hspelling ⊢
    have hne : text.rdropWhile (· = '/') ≠ [] := by
      intro hnil
      rw [hnil, spelling, spelling, spellChar, if_pos rfl] at hspelling
      cases hparts : spelling (c :: rest) with
      | nil => exact hsome hparts
      | cons part parts =>
        rw [hparts] at hspelling
        exact nomatch hspelling
    rw [rdropWhile_cons, List.rdropWhile_idempotent, if_neg hne]

theorem components_normalizePath {path normal : List Char}
    (h : normalizePath path = .ok normal) : components normal = components path := by
  rw [components_eq, components_eq, spelling_normalizePath h, map_snd_leading]

theorem parsePath_ok_iff {path : List Char} {parsed : ParsedPath} :
    parsePath path = .ok parsed ↔
      components path = parsed.rootClass :: parsed.fields ∧ parsed.fields ≠ [] := by
  cases hnormal : normalizePath path with
  | error e =>
    cases path with
    | nil => exact ⟨fun h => (nomatch h), fun h => (nomatch h.1)⟩
    | cons c rest => exact nomatch hnormal
  | ok normal =>
    have hdrop : components (normal.drop 1) = components path := by
      rw [← components_normalizePath hnormal]
      cases path with
      | nil => exact nomatch hnormal
      | cons c rest =>
        obtain rfl := Except.ok.inj hnormal
        exact (components_slash _).symm
    rw [parsePath, hnormal]
    simp only [hdrop]
    cases components path with
    | nil => exact ⟨fun h => (nomatch h), fun h => (nomatch h.1)⟩
    | cons rootClass fields =>
      cases fields with
      | nil =>
        refine ⟨fun h => (nomatch h), fun h => absurd ?_ h.2⟩
        exact (List.cons.inj h.1).2.symm
      | cons field fields =>
        refine ⟨fun h => ?_, fun h => ?_⟩
        · obtain rfl := Except.ok.inj h
          exact ⟨rfl, List.cons_ne_nil _ _⟩
        · obtain ⟨hclass, hfields⟩ := List.cons.inj h.1
          exact congrArg Except.ok (congrArg₂ ParsedPath.mk hclass hfields)

/-- Normalizing does not change what a path names. -/
theorem parsePath_normalizePath {path normal : List Char}
    (h : normalizePath path = .ok normal) :
    (parsePath normal).toOption = (parsePath path).toOption := by
  have hiff : ∀ parsed, parsePath normal = .ok parsed ↔ parsePath path = .ok parsed := by
    intro parsed
    rw [parsePath_ok_iff, parsePath_ok_iff, components_normalizePath h]
  cases hpath : parsePath path with
  | ok parsed => rw [(hiff parsed).mpr hpath]
  | error e =>
    cases hother : parsePath normal with
    | ok parsed => rw [(hiff parsed).mp hother] at hpath; exact nomatch hpath
    | error e' => rfl

/-- Two paths of the same components have the same normal text just when the same runs of
    slashes part them. -/
theorem normalizePath_eq_iff {path other normal otherNormal : List Char}
    (h : normalizePath path = .ok normal) (hother : normalizePath other = .ok otherNormal)
    (hcomponents : components path = components other) (hsome : components path ≠ []) :
    normal = otherNormal ↔ slashRuns path = slashRuns other := by
  have hpath : spelling path ≠ [] := fun hnil => hsome (by rw [components_eq, hnil]; rfl)
  have hothers : spelling other ≠ [] := fun hnil =>
    hsome (by rw [hcomponents, components_eq, hnil]; rfl)
  constructor
  · rintro rfl
    rw [slashRuns, slashRuns, ← spelling_normalizePath h, ← spelling_normalizePath hother]
  · intro hruns
    have hsecond : (leading (spelling path)).map Prod.snd =
        (leading (spelling other)).map Prod.snd := by
      rw [map_snd_leading, map_snd_leading, ← components_eq, ← components_eq, hcomponents]
    have hparts : leading (spelling path) = leading (spelling other) := by
      rw [← List.zip_unzip (leading (spelling path)), ← List.zip_unzip (leading (spelling other)),
        List.unzip_eq_map, List.unzip_eq_map, hsecond]
      exact congrArg (List.zip · _) hruns
    rw [normal_eq_render h hpath, normal_eq_render hother hothers, hparts]

end RootLake.LogicalPath

import Mathlib.Data.List.Destutter
import Mathlib.Data.String.Basic
import RootLake.Dataset.EntrySelectionJson
import RootLake.Lib.ExceptRules
import RootLake.Reader.LogicalPath

/-!
# The paths of an index

An index is built for a list of logical paths, given as a JSON array or as one text with
commas. The paths are normalized, sorted, and equal texts are dropped. Two texts can still
name the same path: a run of slashes between two components, or ahead of the first, outlives
the normalization and is skipped by the parser.
-/

namespace RootLake.Index

open LogicalPath ExceptRules
open Dataset (Json)

def isBlank (c : Char) : Bool := c = ' ' || c = '\t' || c = '\r' || c = '\n'

/-- The entries of the list in their order: a text, or the error of an entry that is none. -/
def logicalPathItems (parseJson : String → Except String Json) (raw : List Char) :
    Except String (List (Except String (List Char))) :=
  match raw.dropWhile isBlank with
  | '[' :: _ =>
      match parseJson (String.ofList raw) with
      | .error e => .error e
      | .ok (.array items) =>
          .ok <| items.map fun
            | .string value => .ok value.toList
            | _ => .error "logical paths JSON entries must be strings"
      | .ok _ => .error "logical paths JSON must be an array"
  | _ =>
      let trimmed := (getlines ',' raw).map fun path => (path.dropWhile isBlank).rdropWhile isBlank
      .ok ((trimmed.filter fun path => !path.isEmpty).map .ok)

def normalizeItem : Except String (List Char) → Except String (List Char)
  | .error e => .error e
  | .ok path => normalizePath path

/-- `std::sort` and `std::unique`. -/
def sortUnique (paths : List (List Char)) : List (List Char) :=
  (paths.mergeSort fun a b => decide (String.ofList a ≤ String.ofList b)).destutter (· ≠ ·)

def checkRootClass (rootClass : List Char) (path : List Char) : Except String Unit :=
  match parsePath path with
  | .error e => .error e
  | .ok parsed =>
      if parsed.rootClass ≠ rootClass then
        .error "One root_build_index call can index multiple paths only from one top-level ROOT class"
      else .ok ()

def parseLogicalPaths (parseJson : String → Except String Json) (raw : List Char) :
    Except String (List (List Char)) :=
  match logicalPathItems parseJson raw with
  | .error e => .error e
  | .ok items =>
      match items.mapM normalizeItem with
      | .error e => .error e
      | .ok normals =>
          match sortUnique normals with
          | [] => .error "At least one logical ROOT path is required"
          | front :: more =>
              match parsePath front with
              | .error e => .error e
              | .ok parsed =>
                  match (front :: more).forM (checkRootClass parsed.rootClass) with
                  | .error e => .error e
                  | .ok () => .ok (front :: more)

/-! ### Sorting and dropping equal texts -/

theorem sortUnique_eq_dedup (paths : List (List Char)) :
    sortUnique paths =
      (paths.mergeSort fun a b => decide (String.ofList a ≤ String.ofList b)).dedup := by
  have hsorted : (paths.mergeSort fun a b =>
      decide (String.ofList a ≤ String.ofList b)).Pairwise
        fun a b => String.ofList a ≤ String.ofList b := by
    refine (List.pairwise_mergeSort (fun a b c hab hbc => ?_) (fun a b => ?_) paths).imp
      fun h => of_decide_eq_true h
    · exact decide_eq_true ((of_decide_eq_true hab).trans (of_decide_eq_true hbc))
    · simpa using le_total (String.ofList a) (String.ofList b)
  have hantisymm : Std.Antisymm fun a b : List Char => String.ofList a ≤ String.ofList b :=
    ⟨fun a b hab hba => String.ofList_injective (le_antisymm hab hba)⟩
  exact hsorted.destutter_eq_dedup

theorem mem_sortUnique {paths : List (List Char)} {path : List Char} :
    path ∈ sortUnique paths ↔ path ∈ paths := by
  rw [sortUnique_eq_dedup, List.mem_dedup, List.mem_mergeSort]

theorem nodup_sortUnique (paths : List (List Char)) : (sortUnique paths).Nodup := by
  rw [sortUnique_eq_dedup]
  exact List.nodup_dedup _

theorem sortUnique_ne_nil {paths : List (List Char)} : sortUnique paths ≠ [] ↔ paths ≠ [] := by
  rw [sortUnique_eq_dedup, Ne, List.dedup_eq_nil, ← List.length_eq_zero_iff,
    List.length_mergeSort, List.length_eq_zero_iff]

/-! ### What is accepted -/

theorem checkRootClass_ok_iff {rootClass path : List Char} :
    checkRootClass rootClass path = .ok () ↔
      ∃ fields, fields ≠ [] ∧ components path = rootClass :: fields := by
  rw [checkRootClass]
  cases hparsed : parsePath path with
  | error e =>
    refine ⟨fun h => (nomatch h), fun ⟨fields, hfields, hpath⟩ => ?_⟩
    have hok : parsePath path = .ok ⟨rootClass, fields⟩ := parsePath_ok_iff.mpr ⟨hpath, hfields⟩
    exact nomatch hparsed.symm.trans hok
  | ok parsed =>
    have hpath := parsePath_ok_iff.mp hparsed
    simp only [ne_eq, ite_not]
    split_ifs with hclass
    · exact ⟨fun _ => ⟨parsed.fields, hpath.2, hclass ▸ hpath.1⟩, fun _ => rfl⟩
    · refine ⟨fun h => (nomatch h), fun ⟨fields, _, hother⟩ => ?_⟩
      exact absurd (List.cons.inj (hpath.1.symm.trans hother)).1 hclass

section Accepted

variable {parseJson : String → Except String Json} {raw : List Char}

/-- The list gives just these texts, and they name leaves below one class. -/
structure Accepted (parseJson : String → Except String Json) (raw : List Char)
    (texts : List (List Char)) : Prop where
  items : logicalPathItems parseJson raw = .ok (texts.map .ok)
  nonempty : texts ≠ []
  oneClass : ∃ rootClass, ∀ text ∈ texts,
    ∃ fields, fields ≠ [] ∧ components text = rootClass :: fields

def Normalized (text normal : List Char) : Prop := normalizePath text = .ok normal

theorem normalizeItem_forall₂ {items : List (Except String (List Char))} :
    ∀ {normals : List (List Char)},
      List.Forall₂ (fun item normal => normalizeItem item = .ok normal) items normals ↔
        ∃ texts, items = texts.map .ok ∧ List.Forall₂ Normalized texts normals := by
  induction items with
  | nil =>
    intro normals
    rw [List.forall₂_nil_left_iff]
    constructor
    · rintro rfl
      exact ⟨[], rfl, .nil⟩
    · rintro ⟨texts, htexts, hnormals⟩
      obtain rfl := List.map_eq_nil_iff.mp htexts.symm
      exact List.forall₂_nil_left_iff.mp hnormals
  | cons item items ih =>
    intro normals
    constructor
    · intro h
      cases h with
      | cons hitem hrest =>
        obtain ⟨texts, rfl, hnormals⟩ := ih.mp hrest
        cases item with
        | error e => exact nomatch hitem
        | ok text => exact ⟨text :: texts, rfl, .cons hitem hnormals⟩
    · rintro ⟨texts, htexts, hnormals⟩
      cases hnormals with
      | nil => exact nomatch htexts
      | cons htext hmore =>
        obtain ⟨rfl, hitems⟩ := List.cons.inj htexts
        exact .cons htext (ih.mpr ⟨_, hitems, hmore⟩)

theorem exists_normals {texts : List (List Char)} (h : ∀ text ∈ texts, components text ≠ []) :
    ∃ normals, List.Forall₂ Normalized texts normals := by
  induction texts with
  | nil => exact ⟨[], .nil⟩
  | cons text texts ih =>
    obtain ⟨normals, hnormals⟩ := ih fun t ht => h t (List.mem_cons_of_mem _ ht)
    cases text with
    | nil => exact absurd rfl (h [] List.mem_cons_self)
    | cons c rest => exact ⟨_ :: normals, .cons rfl hnormals⟩

/-- The list is accepted just when its texts are, and gives the normal texts, each once. -/
theorem parseLogicalPaths_ok_iff {paths : List (List Char)} :
    parseLogicalPaths parseJson raw = .ok paths ↔
      ∃ texts normals, Accepted parseJson raw texts ∧ List.Forall₂ Normalized texts normals ∧
        paths = sortUnique normals := by
  rw [parseLogicalPaths]
  cases hitems : logicalPathItems parseJson raw with
  | error e =>
    refine ⟨fun h => (nomatch h), fun ⟨texts, _, haccepted, _⟩ => ?_⟩
    exact nomatch hitems.symm.trans haccepted.items
  | ok items =>
    dsimp only
    cases hnormals : items.mapM normalizeItem with
    | error e =>
      refine ⟨fun h => (nomatch h), fun ⟨texts, normals, haccepted, hall, _⟩ => ?_⟩
      obtain rfl := Except.ok.inj (hitems.symm.trans haccepted.items)
      have hok := mapM_ok_iff.mpr (normalizeItem_forall₂.mpr ⟨texts, rfl, hall⟩)
      exact nomatch hnormals.symm.trans hok
    | ok normals =>
      obtain ⟨texts, rfl, hall⟩ := normalizeItem_forall₂.mp (mapM_ok_iff.mp hnormals)
      have hclass : ∀ {rootClass}, (∀ path ∈ sortUnique normals,
          checkRootClass rootClass path = .ok ()) ↔ ∀ text ∈ texts,
            ∃ fields, fields ≠ [] ∧ components text = rootClass :: fields := by
        intro rootClass
        constructor
        · intro h text htext
          obtain ⟨normal, hnormal, hpath⟩ := exists_right_of_mem hall text htext
          rw [← components_normalizePath hpath]
          exact checkRootClass_ok_iff.mp (h normal (mem_sortUnique.mpr hnormal))
        · intro h path hmem
          obtain ⟨text, htext, hpath⟩ := exists_left_of_mem hall path (mem_sortUnique.mp hmem)
          rw [checkRootClass_ok_iff, components_normalizePath hpath]
          exact h text htext
      have hsome : sortUnique normals ≠ [] ↔ texts ≠ [] := by
        rw [sortUnique_ne_nil, Ne, ← List.length_eq_zero_iff, ← hall.length_eq,
          List.length_eq_zero_iff]
      -- the texts and their normal forms are the only ones
      have hsame : ∀ {other others}, Accepted parseJson raw other →
          List.Forall₂ Normalized other others → other = texts ∧ others = normals := by
        intro other others haccepted hothers
        obtain rfl : other = texts := List.map_injective_iff.mpr (fun _ _ => Except.ok.inj)
          (Except.ok.inj (haccepted.items.symm.trans hitems))
        have hok := mapM_ok_iff.mpr (normalizeItem_forall₂.mpr ⟨other, rfl, hothers⟩)
        exact ⟨rfl, (Except.ok.inj (hnormals.symm.trans hok)).symm⟩
      dsimp only
      cases hsorted : sortUnique normals with
      | nil =>
        refine ⟨fun h => (nomatch h), fun ⟨other, others, haccepted, hothers, _⟩ => ?_⟩
        obtain ⟨rfl, rfl⟩ := hsame haccepted hothers
        refine absurd hsorted (sortUnique_ne_nil.mpr fun hnil => haccepted.nonempty ?_)
        rw [hnil] at hothers
        exact List.forall₂_nil_right_iff.mp hothers
      | cons front more =>
        rw [hsorted] at hclass hsome
        have hnonempty : texts ≠ [] := hsome.mp (List.cons_ne_nil _ _)
        have hresult : (∃ other others, Accepted parseJson raw other ∧
            List.Forall₂ Normalized other others ∧ paths = sortUnique others) ↔
            (∃ rootClass, ∀ path ∈ front :: more, checkRootClass rootClass path = .ok ()) ∧
              paths = front :: more := by
          constructor
          · rintro ⟨other, others, haccepted, hothers, rfl⟩
            obtain ⟨rfl, rfl⟩ := hsame haccepted hothers
            exact ⟨haccepted.oneClass.imp fun _ => hclass.mpr, hsorted⟩
          · rintro ⟨⟨rootClass, hall'⟩, rfl⟩
            exact ⟨texts, normals, ⟨hitems, hnonempty, rootClass, hclass.mp hall'⟩, hall,
              hsorted.symm⟩
        rw [hresult]
        dsimp only
        cases hfront : parsePath front with
        | error e =>
          refine ⟨fun h => (nomatch h), fun ⟨⟨rootClass, hall'⟩, _⟩ => ?_⟩
          have hfirst := hall' front List.mem_cons_self
          rw [checkRootClass, hfront] at hfirst
          exact nomatch hfirst
        | ok parsed =>
          dsimp only
          cases hloop : (front :: more).forM (checkRootClass parsed.rootClass) with
          | error e =>
            refine ⟨fun h => (nomatch h), fun ⟨⟨rootClass, hall'⟩, _⟩ => ?_⟩
            obtain ⟨fields, _, hfields⟩ :=
              checkRootClass_ok_iff.mp (hall' front List.mem_cons_self)
            have hroot := (parsePath_ok_iff.mp hfront).1
            obtain rfl := (List.cons.inj (hroot.symm.trans hfields)).1
            exact nomatch hloop.symm.trans (forM_ok_iff.mpr hall')
          | ok _ =>
            refine ⟨fun h => ⟨⟨_, forM_ok_iff.mp hloop⟩, (Except.ok.inj h).symm⟩, fun h => ?_⟩
            rw [h.2]

theorem Accepted.components_ne_nil {texts : List (List Char)} (h : Accepted parseJson raw texts)
    {text : List Char} (htext : text ∈ texts) : components text ≠ [] := by
  obtain ⟨rootClass, hclass⟩ := h.oneClass
  obtain ⟨fields, _, hcomponents⟩ := hclass text htext
  rw [hcomponents]
  exact List.cons_ne_nil _ _

theorem Accepted.unique {texts other : List (List Char)} (h : Accepted parseJson raw texts)
    (hother : Accepted parseJson raw other) : other = texts :=
  List.map_injective_iff.mpr (fun _ _ => Except.ok.inj)
    (Except.ok.inj (hother.items.symm.trans h.items))

/-- Accepted texts name the same path just when their components agree. -/
theorem Accepted.parsePath_eq_iff {texts : List (List Char)} (h : Accepted parseJson raw texts)
    {text other : List Char} (htext : text ∈ texts) (hother : other ∈ texts) :
    (parsePath text).toOption = (parsePath other).toOption ↔
      components text = components other := by
  obtain ⟨rootClass, hclass⟩ := h.oneClass
  obtain ⟨fields, hfields, hcomponents⟩ := hclass text htext
  obtain ⟨others, hothers, hotherComponents⟩ := hclass other hother
  have hparsed : parsePath text = .ok ⟨rootClass, fields⟩ :=
    parsePath_ok_iff.mpr ⟨hcomponents, hfields⟩
  have hotherParsed : parsePath other = .ok ⟨rootClass, others⟩ :=
    parsePath_ok_iff.mpr ⟨hotherComponents, hothers⟩
  rw [hparsed, hotherParsed, hcomponents, hotherComponents]
  change some (⟨rootClass, fields⟩ : ParsedPath) = some ⟨rootClass, others⟩ ↔ _
  rw [Option.some.injEq, ParsedPath.mk.injEq, List.cons.injEq]

/-- **Canonical paths**: each path that the texts name is returned once, and normalizing is
    idempotent and keeps what a path names. -/
structure Canonical (parseJson : String → Except String Json) (raw : List Char) : Prop where
  once : ∀ {paths}, parseLogicalPaths parseJson raw = .ok paths →
    paths.Pairwise fun path other => (parsePath path).toOption ≠ (parsePath other).toOption
  given : ∀ {paths}, parseLogicalPaths parseJson raw = .ok paths →
    ∃ texts : List (List Char), logicalPathItems parseJson raw = .ok (texts.map .ok) ∧
      ∀ parsed, (∃ path ∈ paths, parsePath path = .ok parsed) ↔
        ∃ text ∈ texts, parsePath text = .ok parsed
  idempotent : ∀ {path normal}, normalizePath path = .ok normal →
    normalizePath normal = .ok normal
  parses : ∀ {path normal}, normalizePath path = .ok normal →
    (parsePath normal).toOption = (parsePath path).toOption

/-- Texts of the same components have the same slashes between them. -/
def SpelledAlike (parseJson : String → Except String Json) (raw : List Char) : Prop :=
  ∀ {texts}, Accepted parseJson raw texts → ∀ text ∈ texts, ∀ other ∈ texts,
    components text = components other → slashRuns text = slashRuns other

theorem normals_given {texts normals : List (List Char)}
    (hall : List.Forall₂ Normalized texts normals) (parsed : ParsedPath) :
    (∃ path ∈ sortUnique normals, parsePath path = .ok parsed) ↔
      ∃ text ∈ texts, parsePath text = .ok parsed := by
  constructor
  · rintro ⟨path, hpath, hparsed⟩
    obtain ⟨text, htext, hnormal⟩ := exists_left_of_mem hall path (mem_sortUnique.mp hpath)
    rw [parsePath_ok_iff, components_normalizePath hnormal] at hparsed
    exact ⟨text, htext, parsePath_ok_iff.mpr hparsed⟩
  · rintro ⟨text, htext, hparsed⟩
    obtain ⟨path, hpath, hnormal⟩ := exists_right_of_mem hall text htext
    rw [parsePath_ok_iff, ← components_normalizePath hnormal] at hparsed
    exact ⟨path, mem_sortUnique.mpr hpath, parsePath_ok_iff.mpr hparsed⟩

/-- **The returned paths are canonical** just when no two accepted texts part the same
    components by different runs of slashes. -/
theorem canonical_iff (parseJson : String → Except String Json) (raw : List Char) :
    Canonical parseJson raw ↔ SpelledAlike parseJson raw := by
  constructor
  · intro h texts haccepted text htext other hother hcomponents
    obtain ⟨normals, hall⟩ := exists_normals fun t ht => haccepted.components_ne_nil ht
    have honce := h.once (parseLogicalPaths_ok_iff.mpr ⟨texts, normals, haccepted, hall, rfl⟩)
    obtain ⟨normal, hmem, hnormal⟩ := exists_right_of_mem hall text htext
    obtain ⟨otherNormal, hotherMem, hotherNormal⟩ := exists_right_of_mem hall other hother
    rw [← normalizePath_eq_iff hnormal hotherNormal hcomponents
      (haccepted.components_ne_nil htext)]
    by_contra hne
    -- both are returned, and name the same path
    have hsymm : Std.Symm fun path other : List Char =>
        (parsePath path).toOption ≠ (parsePath other).toOption := ⟨fun _ _ h => h.symm⟩
    refine honce.forall (mem_sortUnique.mpr hmem) (mem_sortUnique.mpr hotherMem) hne ?_
    rw [parsePath_normalizePath hnormal, parsePath_normalizePath hotherNormal]
    exact (haccepted.parsePath_eq_iff htext hother).mpr hcomponents
  · intro h
    refine ⟨fun hpaths => ?_, fun hpaths => ?_, normalizePath_normal, parsePath_normalizePath⟩
    · obtain ⟨texts, normals, haccepted, hall, rfl⟩ := parseLogicalPaths_ok_iff.mp hpaths
      refine (nodup_sortUnique normals).imp_of_mem fun {path other} hpath hother hne heq => hne ?_
      obtain ⟨text, htext, hnormal⟩ := exists_left_of_mem hall path (mem_sortUnique.mp hpath)
      obtain ⟨otherText, hotherText, hotherNormal⟩ :=
        exists_left_of_mem hall other (mem_sortUnique.mp hother)
      rw [parsePath_normalizePath hnormal, parsePath_normalizePath hotherNormal,
        haccepted.parsePath_eq_iff htext hotherText] at heq
      rw [normalizePath_eq_iff hnormal hotherNormal heq (haccepted.components_ne_nil htext)]
      exact h haccepted text htext otherText hotherText heq
    · obtain ⟨texts, normals, haccepted, hall, rfl⟩ := parseLogicalPaths_ok_iff.mp hpaths
      exact ⟨texts, haccepted.items, normals_given hall⟩

end Accepted

/-- A repeated slash makes a second path of the same leaf: two paths come back for one. -/
theorem repeated_slash_returned_twice :
    ¬ Canonical (fun _ => .error "") "/A/x,/A//x".toList := by
  intro h
  have haccepted : Accepted (fun _ => .error "") "/A/x,/A//x".toList
      ["/A/x".toList, "/A//x".toList] := by
    refine ⟨rfl, by decide, ['A'], ?_⟩
    rw [List.forall_mem_cons, List.forall_mem_singleton]
    exact ⟨⟨[['x']], by decide, rfl⟩, ⟨[['x']], by decide, rfl⟩⟩
  have hpaths := parseLogicalPaths_ok_iff.mpr
    ⟨_, ["/A/x".toList, "/A//x".toList], haccepted, .cons rfl (.cons rfl .nil), rfl⟩
  have hsymm : Std.Symm fun path other : List Char =>
      (parsePath path).toOption ≠ (parsePath other).toOption := ⟨fun _ _ h => h.symm⟩
  exact (h.once hpaths).forall (mem_sortUnique.mpr List.mem_cons_self)
    (mem_sortUnique.mpr (List.mem_cons_of_mem _ List.mem_cons_self)) (by decide) rfl

end RootLake.Index

/-
  RootLake/Direct/IndexColumns.lean
  =================================
  **The index columns a relation is bound with.**

  `selectSemanticPath` takes the scalar children of a path that have the path's own index
  signature, or the path itself if it is a fixed array.  `bindDirectPrimitives` makes a
  column of each and puts the index columns in front of them: the names that reading the
  signatures gives, each once, where names that differ in case alone count as one.  They are
  the index names of the path exactly if no name has a comma and no two differ in case alone
  (`orderedIndexNames_length_iff`).
-/
import RootLake.Direct.CachedPage
import RootLake.Lib.KeepFirst
import RootLake.Reader.DepthCheck

namespace RootLake.Direct

open KeepFirst Dataset

/-! ### Selecting paths -/

/-- The class and the fields of a path; empty components are skipped. -/
def parsePathPrefix (rawPath : String) : String × List String :=
  let chars := rawPath.toList
  let chars := if chars.head? = some '/' then chars.tail else chars
  let chars := if "events/".toList.isPrefixOf chars then chars.drop 8 else chars
  match (chars.splitOn '/').filter (· ≠ []) with
  | [] => ("", [])
  | rootClass :: fields => (String.ofList rootClass, fields.map String.ofList)

/-- `PathResolver::TryResolve`. -/
def tryResolve (dictionary : Dictionary) (rootClass : TClass) (fields : List String) :
    List PathLevel :=
  match resolvePath dictionary rootClass fields false with
  | .error _ => []
  | .ok levels => levels.map (·.toPathLevel)

/-- The class of a path that a relation is made of. -/
structure SelectedClass where
  name : String
  dictionary : Dictionary
  klass : TClass

def SelectedClass.resolve (cls : SelectedClass) (path : String) : List PathLevel :=
  tryResolve cls.dictionary cls.klass (parsePathPrefix path).2

theorem parsePathPrefix_fields (path : String) :
    ∀ field ∈ (parsePathPrefix path).2, field ≠ "" := by
  have hparts (chars : List Char) : ∀ part ∈ (chars.splitOn '/').filter (· ≠ []), part ≠ [] :=
    fun part hpart => by simpa using (List.mem_filter.mp hpart).2
  intro field hfield
  unfold parsePathPrefix at hfield
  dsimp only at hfield
  split at hfield
  next => cases hfield
  next rootClass fields heq =>
    obtain ⟨part, hpart, rfl⟩ := List.mem_map.mp hfield
    have hne := hparts _ part (heq ▸ List.mem_cons_of_mem _ hpart)
    rw [← String.toList_inj.ne, String.toList_ofList]
    exact hne

theorem SelectedClass.named (cls : SelectedClass) (path : String) :
    ∀ level ∈ cls.resolve path, level.name ≠ "" := by
  intro level hlevel
  unfold resolve tryResolve at hlevel
  split at hlevel
  next => cases hlevel
  next levels hlevels =>
    obtain ⟨-, hnames, -⟩ := resolvePath_chain hlevels
    obtain ⟨resolved, hresolved, rfl⟩ := List.mem_map.mp hlevel
    refine parsePathPrefix_fields path resolved.name ?_
    rw [← hnames]
    exact List.mem_map_of_mem hresolved

structure SemanticPathSelection where
  bindPrefix : String
  primitivePaths : List String
  childPaths : List String
  deriving DecidableEq, Repr

/-- A child is a column if it is a scalar that adds no index to those of the path. -/
def isSelectedChild (cls : SelectedClass) (targetSignature path : String) : Bool :=
  match (cls.resolve path).getLast? with
  | none => false
  | some level =>
      (level.isPrimitive || level.isString) && !level.isContainer && level.fixedArray.isNone &&
        indexSignature (cls.resolve path) = targetSignature

def selectChildren (cls : SelectedClass) (canonical targetSignature : String)
    (children : List String) : SemanticPathSelection where
  bindPrefix := canonical ++ "/"
  primitivePaths := children.filter (isSelectedChild cls targetSignature)
  childPaths := children.filter fun path => !isSelectedChild cls targetSignature path

/-- `SelectSemanticPath`; `children` is what `DescribeSemanticPath` lists, if it can. -/
def selectSemanticPath (cls : SelectedClass) (canonical : String) (fields : List String)
    (children : Option (List String)) : Except IOException (Option SemanticPathSelection) :=
  if fields.isEmpty then .ok (children.map (selectChildren cls canonical (indexSignature [])))
  else
    match (cls.resolve canonical).getLast? with
    | none => .ok none
    | some terminal =>
        if (terminal.isPrimitive || terminal.isString) && terminal.fixedArray.isNone &&
            !terminal.isContainer then
          .error ⟨"read_root path_prefix must select an object or collection, not scalar leaf '" ++
            canonical ++ "'; select its parent object and project column '" ++ terminal.name ++
            "' instead"⟩
        -- A fixed array is itself the selected collection.
        else if terminal.fixedArray.isSome && (terminal.isPrimitive || terminal.isString) then
          .ok (some ⟨canonical, [canonical], []⟩)
        else
          .ok (children.map
            (selectChildren cls canonical (indexSignature (cls.resolve canonical))))

/-! ### Columns -/

/-- The name of a path's column below a prefix; deeper paths have none. -/
def flatName (pathPrefix fullPath : String) : Option String :=
  let rest := fullPath.toList.drop pathPrefix.length
  if '/' ∈ rest then none
  else if rest ≠ [] then some (String.ofList rest)
  else
    let chars := pathPrefix.toList
    let chars := if chars.getLast? = some '/' then chars.dropLast else chars
    let chars :=
      if chars.length ≥ 6 ∧ chars.drop (chars.length - 6) = "/value".toList then
        chars.take (chars.length - 6)
      else chars
    some (String.ofList (chars.reverse.takeWhile (· ≠ '/')).reverse)

section

variable (cls : SelectedClass) (logicalType : PathLevel → LogicalTypeId)

/-- The columns of the paths.  A name that has been seen is skipped, even if its path had no
    column. -/
def resolvedColumns (pathPrefix : String) : List String → List String → List RootScanColumn
  | [], _ => []
  | path :: paths, seen =>
      match flatName pathPrefix path with
      | none => resolvedColumns pathPrefix paths seen
      | some name =>
          if name.toLower ∈ seen then resolvedColumns pathPrefix paths seen
          else
            let rest := resolvedColumns pathPrefix paths (seen ++ [name.toLower])
            match (cls.resolve path).getLast? with
            | none => rest
            | some leaf =>
                if !leaf.isPrimitive && !leaf.isString then rest
                else
                  { name := name
                    rootClassName := cls.name
                    logicalType := logicalType leaf
                    levels := cls.resolve path
                    indexSignature := indexSignature (cls.resolve path) } :: rest

/-- The names of the signatures, the first of each. -/
def orderedIndexNames (columns : List RootScanColumn) : List String :=
  keepFirst String.toLower (columns.flatMap fun column => getLines column.indexSignature)

def entryIdColumn : RootScanColumn where
  name := "entry_id"

def indexColumn (name : String) : RootScanColumn where
  name := name
  rootClassName := cls.name
  isVirtualIndex := true

/-- `BindDirectPrimitives`. -/
def bindDirectPrimitives (selection : SemanticPathSelection) : RootScanColumns where
  columns :=
    let columns := resolvedColumns cls logicalType selection.bindPrefix selection.primitivePaths []
    entryIdColumn :: (orderedIndexNames columns).map (indexColumn cls) ++ columns

end

/-- The columns of values and those of indices. -/
def RootScanColumns.valueColumns (bind : RootScanColumns) : List RootScanColumn :=
  bind.columns.filter fun column => !column.isVirtualIndex && !column.levels.isEmpty

def RootScanColumns.indexColumns (bind : RootScanColumns) : List RootScanColumn :=
  bind.columns.filter (·.isVirtualIndex)

/-! ### What a selection binds -/

section

variable {cls : SelectedClass} {logicalType : PathLevel → LogicalTypeId}

/-- A column of a path: its leaf is a scalar, or a fixed array of them. -/
structure BoundColumn (cls : SelectedClass) (signature : String) (column : RootScanColumn) :
    Prop where
  notIndex : column.isVirtualIndex = false
  rootClassName_eq : column.rootClassName = cls.name
  signature_eq : column.indexSignature = indexSignature column.levels
  selected : column.indexSignature = signature
  resolved : ∃ path, column.levels = cls.resolve path
  leaf : ∃ leaf ∈ column.levels.getLast?, (leaf.isPrimitive = true ∨ leaf.isString = true) ∧
    (leaf.fixedArray.isSome = true ∨ leaf.isContainer = false)

theorem BoundColumn.named {signature : String} {column : RootScanColumn}
    (h : BoundColumn cls signature column) : ∀ level ∈ column.levels, level.name ≠ "" := by
  obtain ⟨path, hpath⟩ := h.resolved
  rw [hpath]
  exact cls.named path

theorem BoundColumn.levels_ne_nil {signature : String} {column : RootScanColumn}
    (h : BoundColumn cls signature column) : column.levels ≠ [] := by
  obtain ⟨leaf, hleaf, -⟩ := h.leaf
  rintro hnil
  rw [hnil] at hleaf
  cases hleaf

/-- The levels of a column are collections of the dictionary, and can be descended. -/
theorem BoundColumn.chain {signature : String} {column : RootScanColumn}
    (h : BoundColumn cls signature column) :
    (∀ level ∈ column.levels.dropLast, level.klass.isSome = true) ∧
      ∀ level ∈ column.levels, level.isContainer = true →
        ∃ klass, level.klass = some klass ∧
          (cls.dictionary.info klass).valueClass.isSome = true := by
  obtain ⟨path, hpath⟩ := h.resolved
  unfold SelectedClass.resolve tryResolve at hpath
  split at hpath
  next => exact absurd hpath h.levels_ne_nil
  next levels hlevels =>
    rw [hpath]
    exact resolvePath_collections hlevels

/-- What `SelectSemanticPath` has checked of a path. -/
def SelectedPath (cls : SelectedClass) (signature path : String) : Prop :=
  indexSignature (cls.resolve path) = signature ∧
    ∀ leaf ∈ (cls.resolve path).getLast?, leaf.fixedArray.isSome = true ∨ leaf.isContainer = false

theorem selectChildren_selected (canonical signature : String) (children : List String) :
    ∀ path ∈ (selectChildren cls canonical signature children).primitivePaths,
      SelectedPath cls signature path := by
  intro path hpath
  have hselected := (List.mem_filter.mp hpath).2
  unfold isSelectedChild at hselected
  split at hselected
  next => cases hselected
  next level hlevel =>
    simp only [Bool.and_eq_true, Bool.not_eq_true', decide_eq_true_eq] at hselected
    refine ⟨hselected.2, fun leaf hleaf => ?_⟩
    rw [hlevel] at hleaf
    cases hleaf
    exact .inr hselected.1.1.2

theorem selectSemanticPath_selected {canonical : String} {fields : List String}
    {children : Option (List String)} {selection : SemanticPathSelection}
    (h : selectSemanticPath cls canonical fields children = .ok (some selection)) :
    ∃ signature, ∀ path ∈ selection.primitivePaths, SelectedPath cls signature path := by
  have hchildren {signature : String}
      (h : children.map (selectChildren cls canonical signature) = some selection) :
      ∀ path ∈ selection.primitivePaths, SelectedPath cls signature path := by
    obtain ⟨paths, -, rfl⟩ := Option.map_eq_some_iff.mp h
    exact selectChildren_selected canonical signature paths
  unfold selectSemanticPath at h
  split at h
  next => exact ⟨_, hchildren (Except.ok.inj h)⟩
  next =>
    split at h
    next => cases h
    next terminal hterminal =>
      split at h
      next => cases h
      next =>
        split at h
        next hfixed =>
          cases h
          refine ⟨indexSignature (cls.resolve canonical), fun path hpath => ?_⟩
          rw [List.mem_singleton.mp hpath]
          refine ⟨rfl, fun leaf hleaf => .inl ?_⟩
          rw [hterminal] at hleaf
          cases hleaf
          exact (Bool.and_eq_true_iff.mp hfixed).1
        next => exact ⟨_, hchildren (Except.ok.inj h)⟩

theorem resolvedColumns_bound {signature pathPrefix : String} {paths : List String}
    (h : ∀ path ∈ paths, SelectedPath cls signature path) :
    ∀ seen, ∀ column ∈ resolvedColumns cls logicalType pathPrefix paths seen,
      BoundColumn cls signature column := by
  induction paths with
  | nil => exact fun _ _ hcolumn => absurd hcolumn List.not_mem_nil
  | cons path paths ih =>
    have hrest := ih fun other hother => h other (List.mem_cons_of_mem _ hother)
    obtain ⟨hsignature, hleaf⟩ := h path List.mem_cons_self
    intro seen column hcolumn
    unfold resolvedColumns at hcolumn
    split at hcolumn
    next => exact hrest seen column hcolumn
    next name _ =>
      split at hcolumn
      next => exact hrest seen column hcolumn
      next =>
        dsimp only at hcolumn
        split at hcolumn
        next => exact hrest _ column hcolumn
        next leaf hlast =>
          split at hcolumn
          next => exact hrest _ column hcolumn
          next hscalar =>
            rcases List.mem_cons.mp hcolumn with rfl | hcolumn
            · refine ⟨rfl, rfl, rfl, hsignature, ⟨path, rfl⟩, leaf, hlast, ?_, hleaf leaf hlast⟩
              simpa only [Bool.and_eq_true, Bool.not_eq_true', not_and, Bool.not_eq_false,
                Bool.or_eq_true, Decidable.or_iff_not_imp_left, Bool.not_eq_true] using hscalar
            · exact hrest _ column hcolumn

end

/-! ### Names of index columns -/

theorem withoutIndexSuffix_append {stem : String} (h : stem ≠ "") :
    withoutIndexSuffix (stem ++ "_idx") = stem := by
  have hpos : 0 < stem.toList.length := by
    rw [List.length_pos_iff]
    intro hnil
    exact h (String.toList_inj.mp hnil)
  have hlength : (stem.toList ++ "_idx".toList).length = stem.toList.length + 4 := by
    rw [List.length_append]
    rfl
  rw [withoutIndexSuffix]
  simp only [String.toList_append, hlength, Nat.add_sub_cancel, List.drop_left, List.take_left]
  rw [if_pos ⟨Nat.lt_add_of_pos_left hpos, trivial⟩, String.ofList_toList]

/-- Where a name without its suffix has no comma, the name has none. -/
theorem comma_not_mem_of_suffix {stem name : String} (h : withoutIndexSuffix name = stem)
    (hname : ',' ∉ name.toList) : ',' ∉ (stem ++ "_idx").toList := by
  rw [String.toList_append, List.mem_append, not_or]
  refine ⟨?_, by decide⟩
  unfold withoutIndexSuffix at h
  dsimp only at h
  split at h
  next =>
    rw [← h, String.toList_ofList]
    exact fun hmem => hname (List.mem_of_mem_take hmem)
  next => exact h ▸ hname

/-- Every index name has the suffix, behind something. -/
theorem indexNames_suffix {levels : List PathLevel} (named : ∀ level ∈ levels, level.name ≠ "") :
    ∀ name ∈ indexNames levels, ∃ stem, stem ≠ "" ∧ name = stem ++ "_idx" := by
  intro name hname
  obtain ⟨level, hlevel, hname⟩ := List.mem_flatMap.mp hname
  have hne := named level hlevel
  unfold appendLevelIndexNames at hname
  rcases List.mem_append.mp hname with hname | hname
  · split at hname
    · exact ⟨level.name, hne, List.mem_singleton.mp hname⟩
    · cases hname
  · split at hname
    · unfold arrayIndexNames at hname
      split at hname
      · exact ⟨level.name, hne, List.mem_singleton.mp hname⟩
      · obtain ⟨dim, -, rfl⟩ := List.mem_map.mp hname
        refine ⟨level.name ++ "_dim" ++ toString dim, fun hnil => hne ?_, rfl⟩
        rw [← String.toList_inj] at hnil ⊢
        rw [String.toList_append, String.toList_append, String.toList_empty] at hnil
        exact (List.append_eq_nil_iff.mp (List.append_eq_nil_iff.mp hnil).1).1
    · cases hname

/-- Index names are known without their suffix. -/
theorem withoutIndexSuffix_injective {levels : List PathLevel}
    (named : ∀ level ∈ levels, level.name ≠ "") {name name' : String}
    (hname : name ∈ indexNames levels) (hname' : name' ∈ indexNames levels)
    (h : withoutIndexSuffix name = withoutIndexSuffix name') : name = name' := by
  obtain ⟨stem, hstem, rfl⟩ := indexNames_suffix named name hname
  obtain ⟨stem', hstem', rfl⟩ := indexNames_suffix named name' hname'
  rw [withoutIndexSuffix_append hstem, withoutIndexSuffix_append hstem'] at h
  rw [h]

/-- No name of an index has a comma. -/
def CommaFree (levels : List PathLevel) : Prop := ∀ name ∈ indexNames levels, ',' ∉ name.toList

/-- The index names differ, and not in case alone. -/
def DistinctNames (levels : List PathLevel) : Prop :=
  ((indexNames levels).map String.toLower).Nodup

theorem getLines_indexSignature {levels : List PathLevel}
    (named : ∀ level ∈ levels, level.name ≠ "") (h : CommaFree levels) :
    getLines (indexSignature levels) = indexNames levels := by
  refine getLines_joinStrings h fun name hname hempty => ?_
  obtain ⟨stem, hstem, rfl⟩ := indexNames_suffix named name hname
  rw [← String.toList_inj, String.toList_append, String.toList_empty] at hempty
  exact hstem (String.toList_inj.mp (List.append_eq_nil_iff.mp hempty).1)

/-- Columns of one signature have its names once. -/
theorem orderedIndexNames_eq {signature : String} {columns : List RootScanColumn}
    (hne : columns ≠ []) (h : ∀ column ∈ columns, column.indexSignature = signature) :
    orderedIndexNames columns = keepFirst String.toLower (getLines signature) := by
  obtain ⟨column, columns, rfl⟩ := List.exists_cons_of_ne_nil hne
  rw [orderedIndexNames, List.flatMap_cons, h column List.mem_cons_self]
  refine keepFirst_append_seen fun name hname => ?_
  obtain ⟨other, hother, hname⟩ := List.mem_flatMap.mp hname
  rw [h other (List.mem_cons_of_mem _ hother)] at hname
  exact List.mem_map_of_mem hname

/-- There is an index column for every index exactly if the names differ, and not in case
    alone. -/
theorem orderedIndexNames_length_iff {levels : List PathLevel}
    (named : ∀ level ∈ levels, level.name ≠ "") (hcomma : CommaFree levels) :
    (keepFirst String.toLower (getLines (indexSignature levels))).length = indexDepth levels ↔
      DistinctNames levels := by
  rw [getLines_indexSignature named hcomma, ← length_indexNames]
  exact length_keepFirst_iff _

end RootLake.Direct

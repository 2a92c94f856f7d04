import Mathlib.Data.List.Infix
import RootLake.Lib.ExceptRules
import RootLake.Lib.Logged

/-!
# The relations of a catalog

A catalog reads its metadata tables by SQL queries that are put together from texts: names
of tables, relations over the files of an Iceberg catalog, or quoted file names. Where a
relation stands unquoted in a query, its text is the user's or one that `RootIcebergRelation`
has made.
-/

namespace RootLake.Dataset

open ExceptRules

/-- A text that is meant as a relation. The mark says where it comes from; the code does not
    see it. -/
structure Relation where
  text : List Char
  produced : Bool := false
  deriving DecidableEq

def isSafeQualifiedName (name : List Char) : Bool :=
  !name.isEmpty && name.all fun c => c.isAlphanum || c = '_' || c = '.'

def isInternalIcebergRelation (source : List Char) : Bool :=
  if "read_parquet([".toList.isPrefixOf source then
    2 ≤ source.length && source.getLast? = some ')'
  else
    "(SELECT ".toList.isPrefixOf source &&
      source.tails.any (" FROM read_parquet([".toList.isPrefixOf ·) && 2 ≤ source.length && source.getLast? = some ')'

/-- What stands for a relation in a query: its text, or `read_parquet` of a quoted file name. -/
inductive Fragment where
  | unquoted (relation : Relation)
  | file (path : List Char)

def catalogRelationSQL (source : Relation) (sqlTables : Bool) : Except String Fragment :=
  if sqlTables then
    if isInternalIcebergRelation source.text then .ok (.unquoted source)
    else if !isSafeQualifiedName source.text then
      .error ("Unsafe metadata table name: " ++ String.ofList source.text)
    else .ok (.unquoted source)
  else .ok (.file source.text)

def sqlLiteral (value : List Char) : List Char :=
  '\'' :: (value.flatMap fun c => if c = '\'' then ['\'', '\''] else [c]) ++ ['\'']

/-- A file of an Iceberg scan. -/
structure FileTask where
  path : Option (List Char)
  deletes : Bool

/-- What a catalog reads besides its tables. -/
structure World where
  isRootIcebergCatalog : List Char → Bool
  /-- The scan that the Iceberg library plans for a table, at a snapshot unless that is 0. -/
  planFiles : List Char → String → Int → Except String (List FileTask)
  pathExists : List Char → Bool
  /-- The four file names of a manifest, and its snapshot. -/
  manifest : List Char → Except String (List Char × List Char × List Char × List Char × String)

def taskPath (task : FileTask) : Except String (List Char) :=
  match task.path with
  | none => .error "Iceberg scan returned an invalid file task"
  | some path =>
      if task.deletes then .error "ROOT metadata scan cannot ignore Iceberg row-level deletes"
      else
        .ok <| sqlLiteral <|
          if "file://".toList.isPrefixOf path then path.drop 7 else path

def taskPaths (tasks : List FileTask) : Except String (List (List Char)) :=
  if tasks.isEmpty then .error "Iceberg table has no active data files" else tasks.mapM taskPath

def rootIcebergRelation (world : World) (catalog : List Char) (table : String) (snapshot : Int) :
    Except String Relation := do
  let tasks ← world.planFiles catalog table snapshot
  let paths ← taskPaths tasks
  .ok {
    text := "read_parquet([".toList ++ List.intercalate [','] paths ++
      "], union_by_name=true)".toList
    produced := true }

/-- What the queries of a catalog answer. -/
structure Answers where
  latestGeneration : Except String String
  snapshotMapping : Except String (List (String × Int))
  committedSnapshot : Except String String
  pathOrigins : Except String (List String)
  generationRows : Except String Nat
  accessPlans : Except String (List String)
  accessPlan : String → Except String Unit
  rows : Except String Unit

structure CatalogSources where
  files : Relation
  schemas : Relation
  access : Relation
  baskets : Relation
  snapshots : Relation := ⟨[], false⟩
  commits : Relation := ⟨[], false⟩
  pathSources : Relation := ⟨[], false⟩
  snapshotId : String
  sqlTables : Bool

/-- The named parameters; one that is not given is empty. -/
structure CatalogParameters where
  catalogPrefix : List Char
  filesTable : List Char
  schemasTable : List Char
  accessTable : List Char
  basketsTable : List Char
  snapshotsTable : List Char
  commitsTable : List Char
  snapshotId : String

/-- A query is known by the relations that are spliced into it. -/
abbrev Session := Logged (List Fragment) String

def query {α : Type} (fragments : List Fragment) (answer : Except String α) : Session α :=
  Logged.perform fragments answer

/-! ### Resolving the sources -/

/-- The loop over the rows of the snapshot mapping. -/
def snapshotVersions : List (String × Int) → List (String × Int) →
    Except String (List (String × Int))
  | [], versions => .ok versions
  | (name, version) :: rows, versions =>
      if version ≤ 0 || (versions.lookup name).isSome then
        .error ("Invalid Iceberg metadata snapshot mapping: " ++ name)
      else snapshotVersions rows ((name, version) :: versions)

def requiredVersion (versions : List (String × Int)) (name : String) : Except String Int :=
  match versions.lookup name with
  | none => .error "Committed ROOT index has incomplete Iceberg table snapshots"
  | some version => .ok version

section Resolve

variable (world : World) (answers : Answers)

def resolveIceberg (catalogPath : List Char) : Session CatalogSources := do
  let commits ← .lift (rootIcebergRelation world catalogPath "commits" 0)
  let snapshotId ← query [.unquoted commits] answers.latestGeneration
  let snapshots ← .lift (rootIcebergRelation world catalogPath "snapshots" 0)
  let rows ← query [.unquoted snapshots] answers.snapshotMapping
  let versions ← .lift (snapshotVersions rows [])
  let filesVersion ← .lift (requiredVersion versions "files")
  let schemasVersion ← .lift (requiredVersion versions "schemas")
  let accessVersion ← .lift (requiredVersion versions "access")
  let basketsVersion ← .lift (requiredVersion versions "baskets")
  let files ← .lift (rootIcebergRelation world catalogPath "files" filesVersion)
  let schemas ← .lift (rootIcebergRelation world catalogPath "schemas" schemasVersion)
  let access ← .lift (rootIcebergRelation world catalogPath "access" accessVersion)
  let baskets ← .lift (rootIcebergRelation world catalogPath "baskets" basketsVersion)
  let pathSources ← .lift <|
    match versions.lookup "path_sources" with
    | none => .ok ⟨[], false⟩
    | some version => rootIcebergRelation world catalogPath "path_sources" version
  return { files, schemas, access, baskets, pathSources, snapshotId, sqlTables := true }

/-- The prefix of the tables: the parameter, else a catalog path that is a name. -/
def effectivePrefix (catalogPath : List Char) (parameters : CatalogParameters) : List Char :=
  if parameters.catalogPrefix.isEmpty && !catalogPath.isEmpty &&
      isSafeQualifiedName catalogPath && !world.pathExists catalogPath then catalogPath
  else parameters.catalogPrefix

def anyOverride (parameters : CatalogParameters) : Bool :=
  !parameters.filesTable.isEmpty || !parameters.schemasTable.isEmpty ||
    !parameters.accessTable.isEmpty || !parameters.basketsTable.isEmpty ||
    !parameters.snapshotsTable.isEmpty

def missingOverride (parameters : CatalogParameters) : Bool :=
  parameters.filesTable.isEmpty || parameters.schemasTable.isEmpty ||
    parameters.accessTable.isEmpty || parameters.basketsTable.isEmpty

/-- The tables under a prefix, and the commit ledger if one is named. -/
def prefixSources (tablePrefix : List Char) (parameters : CatalogParameters) : CatalogSources where
  files := { text := tablePrefix ++ "_files".toList }
  schemas := { text := tablePrefix ++ "_schemas".toList }
  access := { text := tablePrefix ++ "_access".toList }
  baskets := { text := tablePrefix ++ "_baskets".toList }
  snapshots := { text := tablePrefix ++ "_snapshots".toList }
  commits := { text := parameters.commitsTable }
  snapshotId := parameters.snapshotId
  sqlTables := true

def overrideSources (parameters : CatalogParameters) : CatalogSources where
  files := { text := parameters.filesTable }
  schemas := { text := parameters.schemasTable }
  access := { text := parameters.accessTable }
  baskets := { text := parameters.basketsTable }
  snapshots := { text := parameters.snapshotsTable }
  commits := { text := parameters.commitsTable }
  snapshotId := parameters.snapshotId
  sqlTables := true

def resolveSources (catalogPath : List Char) (parameters : CatalogParameters) :
    Session CatalogSources :=
  if world.isRootIcebergCatalog catalogPath then resolveIceberg world answers catalogPath
  else if !(effectivePrefix world catalogPath parameters).isEmpty then
    if !isSafeQualifiedName (effectivePrefix world catalogPath parameters) then
      .lift (.error ("Unsafe ROOT metadata catalog prefix: " ++
        String.ofList (effectivePrefix world catalogPath parameters)))
    else pure (prefixSources (effectivePrefix world catalogPath parameters) parameters)
  else if anyOverride parameters then
    if missingOverride parameters then
      .lift (.error
        "files_table, schemas_table, access_table and baskets_table must be supplied together")
    else pure (overrideSources parameters)
  else do
    let (files, schemas, access, baskets, snapshotId) ← .lift (world.manifest catalogPath)
    return {
      files := { text := files }, schemas := { text := schemas }, access := { text := access }
      baskets := { text := baskets }, snapshotId, sqlTables := false }

/-- The snapshots, joined with the commit ledger if there is one. -/
def recordFragments (sources : CatalogSources) : List Fragment :=
  if sources.commits.text.isEmpty then [.unquoted sources.snapshots]
  else [.unquoted sources.snapshots, .unquoted sources.commits]

def resolveCommittedSnapshot (sources : CatalogSources) : Session CatalogSources :=
  if !sources.sqlTables || sources.snapshots.text.isEmpty || sources.snapshotId ≠ "" then
    pure sources
  else do
    let snapshotId ← query (recordFragments sources) answers.committedSnapshot
    return { sources with snapshotId }

/-- The constructor of `RootDatasetCatalog`. -/
def openCatalog (catalogPath : List Char) (parameters : CatalogParameters) :
    Session CatalogSources := do
  let sources ← resolveSources world answers catalogPath parameters
  resolveCommittedSnapshot answers sources

end Resolve

/-! ### Using the catalog -/

inductive MetadataTable where
  | files
  | schemas
  | access
  | baskets

def CatalogSources.table (sources : CatalogSources) : MetadataTable → Relation
  | .files => sources.files
  | .schemas => sources.schemas
  | .access => sources.access
  | .baskets => sources.baskets

section Use

variable (answers : Answers) (sources : CatalogSources)

def pathSnapshot : Session String :=
  if sources.pathSources.text.isEmpty || sources.snapshotId = "" then pure sources.snapshotId
  else do
    let origins ← query [.unquoted sources.pathSources] answers.pathOrigins
    match origins with
    | [origin] => return origin
    | _ :: _ :: _ => .lift (.error "Conflicting ROOT path origins")
    | [] =>
        let rows ← query [.unquoted sources.pathSources] answers.generationRows
        if rows ≠ 0 then .lift (.error "ROOT path is absent from selected generation")
        else return sources.snapshotId

/-- The files of a path's own snapshot, where the filter on the schemas names them. -/
def schemaFilter (physicalSnapshot : String) : Session (List Fragment) :=
  if !sources.pathSources.text.isEmpty && physicalSnapshot ≠ "" then do
    let files ← .lift (catalogRelationSQL sources.files sources.sqlTables)
    return [files]
  else pure []

/-- `LoadSchemaBindings`, with an access plan for each schema. -/
def loadSchemas : Session Unit := do
  let physicalSnapshot ← pathSnapshot answers sources
  let schemas ← .lift (catalogRelationSQL sources.schemas sources.sqlTables)
  let access ← .lift (catalogRelationSQL sources.access sources.sqlTables)
  let files ← schemaFilter sources physicalSnapshot
  let plans ← query (schemas :: files) answers.accessPlans
  plans.forM fun plan => query [access] (answers.accessPlan plan)

/-- A query of the planner over some of the tables. -/
def scanTables (tables : List MetadataTable) : Session Unit := do
  let fragments ← .lift (tables.mapM fun table =>
    catalogRelationSQL (sources.table table) sources.sqlTables)
  query fragments answers.rows

end Use

/-- What `Bind` does first: it opens the catalog and loads the schemas of the path. -/
def openAndLoad (world : World) (answers : Answers) (catalogPath : List Char)
    (parameters : CatalogParameters) : Session Unit := do
  let sources ← openCatalog world answers catalogPath parameters
  loadSchemas answers sources

/-! ### What is vetted -/

/-- A name, or a text that `RootIcebergRelation` made. -/
def Relation.Vetted (relation : Relation) : Prop :=
  isSafeQualifiedName relation.text = true ∨ relation.produced = true

def Fragment.Vetted : Fragment → Prop
  | .unquoted relation => relation.Vetted
  | .file _ => True

/-- All that is spliced into the queries of a session is vetted. -/
def OnlyVetted {α : Type} (session : Session α) : Prop :=
  session.All fun fragments => ∀ fragment ∈ fragments, fragment.Vetted

/-- An error before any query. -/
def Refused {α : Type} (session : Session α) : Prop :=
  session.log = [] ∧ ∃ e, session.result = .error e

/-- The query for the commit record is not run, or it is run over names. -/
def RecordVetted (snapshots commits : List Char) (snapshotId : String) : Prop :=
  snapshotId ≠ "" ∨ snapshots = [] ∨ isSafeQualifiedName snapshots = true ∧
    (commits = [] ∨ isSafeQualifiedName commits = true)

def CatalogParameters.tables (parameters : CatalogParameters) : List (List Char) :=
  [parameters.filesTable, parameters.schemasTable, parameters.accessTable, parameters.basketsTable]

/-- The relations that the input names are names: the prefix, or else all four tables, and the
commit record where it is asked for. -/
def InputVetted (world : World) (catalogPath : List Char) (parameters : CatalogParameters) :
    Prop :=
  world.isRootIcebergCatalog catalogPath = true ∨
    let tablePrefix := effectivePrefix world catalogPath parameters
    (tablePrefix ≠ [] → isSafeQualifiedName tablePrefix = true ∧
      RecordVetted (tablePrefix ++ "_snapshots".toList) parameters.commitsTable
        parameters.snapshotId) ∧
    (tablePrefix = [] → anyOverride parameters = true → missingOverride parameters = false ∧
      RecordVetted parameters.snapshotsTable parameters.commitsTable parameters.snapshotId ∧
        ∀ text ∈ parameters.tables, isSafeQualifiedName text = true)

/-- **Vetted relations**: of opening the catalog and of every use of it, whatever the database
    answers. An input that is not vetted is refused before any query, when the catalog is opened
    or the schemas are loaded, and so is each later use of a table that is not vetted. -/
structure SplicesVetted (world : World) (catalogPath : List Char)
    (parameters : CatalogParameters) : Prop where
  opened : ∀ answers, OnlyVetted (openCatalog world answers catalogPath parameters)
  loaded : ∀ answers sources,
    (openCatalog world answers catalogPath parameters).result = .ok sources →
      OnlyVetted (loadSchemas answers sources)
  scanned : ∀ answers sources tables,
    (openCatalog world answers catalogPath parameters).result = .ok sources →
      OnlyVetted (scanTables answers sources tables)
  inputRefused : ∀ answers, ¬ InputVetted world catalogPath parameters →
    Refused (openAndLoad world answers catalogPath parameters)
  tableRefused : ∀ answers sources tables,
    (openCatalog world answers catalogPath parameters).result = .ok sources →
      sources.sqlTables = true → (∃ table ∈ tables, ¬ (sources.table table).Vetted) →
        Refused (scanTables answers sources tables)

theorem not_safe_of_internal {text : List Char} (h : isInternalIcebergRelation text = true) :
    isSafeQualifiedName text = false := by
  have hparen : '(' ∈ text := by
    unfold isInternalIcebergRelation at h
    split_ifs at h with hread
    · exact (List.isPrefixOf_iff_prefix.mp hread).subset (by decide)
    · rw [Bool.and_eq_true, Bool.and_eq_true, Bool.and_eq_true] at h
      exact (List.isPrefixOf_iff_prefix.mp h.1.1.1).subset (by decide)
  by_contra hsafe
  rw [Bool.not_eq_false, isSafeQualifiedName, Bool.and_eq_true, List.all_eq_true] at hsafe
  exact absurd (hsafe.2 _ hparen) (by decide)

theorem safe_append {front back : List Char} (h : isSafeQualifiedName front = true)
    (hback : back.all (fun c => c.isAlphanum || c = '_' || c = '.') = true) :
    isSafeQualifiedName (front ++ back) = true := by
  rw [isSafeQualifiedName, Bool.and_eq_true] at h ⊢
  refine ⟨?_, by rw [List.all_append, h.2, hback, Bool.and_self]⟩
  cases front with
  | nil => exact nomatch h.1
  | cons c front => rfl

/-! ### Sources that are used safely -/

/-- No text that looks like an Iceberg relation is there but those that are. -/
structure CatalogSources.Guarded (sources : CatalogSources) : Prop where
  tables : sources.sqlTables = true → ∀ table, (sources.table table).produced = true ∨
    isInternalIcebergRelation (sources.table table).text = false
  pathSources : sources.pathSources.text = [] ∨ sources.pathSources.produced = true
  record : sources.sqlTables = true →
    RecordVetted sources.snapshots.text sources.commits.text sources.snapshotId

abbrev FragmentsVetted (fragments : List Fragment) : Prop :=
  ∀ fragment ∈ fragments, fragment.Vetted

theorem catalogRelationSQL_vetted {source : Relation} {sqlTables : Bool}
    (h : sqlTables = true → source.produced = true ∨ isInternalIcebergRelation source.text = false)
    (fragment : Fragment) : catalogRelationSQL source sqlTables = .ok fragment →
      fragment.Vetted := by
  intro hfragment
  unfold catalogRelationSQL at hfragment
  split_ifs at hfragment with htables hinternal hsafe
  · obtain rfl := Except.ok.inj hfragment
    exact Or.inr ((h htables).resolve_right (by simp [hinternal]))
  · obtain rfl := Except.ok.inj hfragment
    exact Or.inl (by simpa using hsafe)
  · obtain rfl := Except.ok.inj hfragment
    exact trivial

theorem catalogRelationSQL_refused {source : Relation}
    (h : source.produced = true ∨ isInternalIcebergRelation source.text = false)
    (hvetted : ¬ source.Vetted) : ∃ e, catalogRelationSQL source true = .error e := by
  rw [Relation.Vetted, not_or] at hvetted
  have hinternal : ¬ isInternalIcebergRelation source.text = true := by
    rw [h.resolve_left hvetted.2]
    decide
  exact ⟨_, by rw [catalogRelationSQL, if_pos rfl, if_neg hinternal,
    if_pos (by simpa using hvetted.1)]⟩

section Guarded

variable {answers : Answers} {sources : CatalogSources}

theorem pathSnapshot_vetted (h : sources.Guarded) :
    (pathSnapshot answers sources).Ensures FragmentsVetted fun _ => True := by
  rw [pathSnapshot]
  split_ifs with hempty
  · exact Logged.ensures_pure trivial
  · have hproduced : sources.pathSources.produced = true :=
      h.pathSources.resolve_left fun hnil => hempty (by simp [hnil])
    have hquery : FragmentsVetted [.unquoted sources.pathSources] := fun _ hmem =>
      List.mem_singleton.mp hmem ▸ Or.inr hproduced
    refine (Logged.ensures_perform (Q := fun _ => True) hquery fun _ _ => trivial).bind
      fun origins _ => ?_
    split
    · exact Logged.ensures_pure trivial
    · exact Logged.ensures_lift fun _ h => (nomatch h)
    · refine (Logged.ensures_perform (Q := fun _ => True) hquery fun _ _ => trivial).bind
        fun rows _ => ?_
      split_ifs
      · exact Logged.ensures_lift fun _ h => (nomatch h)
      · exact Logged.ensures_pure trivial

theorem loadSchemas_vetted (h : sources.Guarded) :
    (loadSchemas answers sources).Ensures FragmentsVetted fun _ => True := by
  have hlift : ∀ table, (Logged.lift (catalogRelationSQL (sources.table table)
      sources.sqlTables) : Session Fragment).Ensures FragmentsVetted Fragment.Vetted :=
    fun table => Logged.ensures_lift
      (catalogRelationSQL_vetted fun htables => h.tables htables table)
  refine (pathSnapshot_vetted h).bind fun physicalSnapshot _ => ?_
  refine (hlift .schemas).bind fun schemas hschemas => ?_
  refine (hlift .access).bind fun access haccess => ?_
  refine Logged.Ensures.bind (Q := FragmentsVetted) ?_ fun files hfiles => ?_
  · rw [schemaFilter]
    split_ifs
    · exact (hlift .files).bind fun files hfiles =>
        Logged.ensures_pure (List.forall_mem_singleton.mpr hfiles)
    · exact Logged.ensures_pure fun _ h => absurd h List.not_mem_nil
  · refine (Logged.ensures_perform (Q := fun _ => True)
      (List.forall_mem_cons.mpr ⟨hschemas, hfiles⟩) fun _ _ => trivial).bind fun plans _ => ?_
    exact Logged.ensures_forM fun plan _ => Logged.ensures_perform
      (List.forall_mem_singleton.mpr haccess) fun _ _ => trivial

theorem scanTables_log {tables : List MetadataTable} {fragments : List Fragment}
    (h : (tables.mapM fun table => catalogRelationSQL (sources.table table) sources.sqlTables) =
      .ok fragments) : (scanTables answers sources tables).log = [fragments] := by
  rw [scanTables, Logged.bind_ok (a := fragments) (by exact h)]
  rfl

theorem scanTables_vetted (h : sources.Guarded) (tables : List MetadataTable) :
    (scanTables answers sources tables).Ensures FragmentsVetted fun _ => True := by
  refine Logged.Ensures.bind (Q := FragmentsVetted) (Logged.ensures_lift fun fragments hmap => ?_)
    fun fragments hvetted => Logged.ensures_perform hvetted fun _ _ => trivial
  intro fragment hfragment
  obtain ⟨table, _, htable⟩ := exists_left_of_mem (mapM_ok_iff.mp hmap) fragment hfragment
  exact catalogRelationSQL_vetted (fun htables => h.tables htables table) fragment htable

/-- A table that is not vetted ends the use of it before its query. -/
theorem scanTables_refused (h : sources.Guarded) (hsql : sources.sqlTables = true)
    {tables : List MetadataTable} (hunvetted : ∃ table ∈ tables, ¬ (sources.table table).Vetted) :
    Refused (scanTables answers sources tables) := by
  obtain ⟨table, htable, hnot⟩ := hunvetted
  obtain ⟨e, he⟩ := catalogRelationSQL_refused (h.tables hsql table) hnot
  cases hmap : tables.mapM fun table =>
      catalogRelationSQL (sources.table table) sources.sqlTables with
  | error e' =>
    rw [scanTables, Logged.bind_error (e := e') (by exact hmap)]
    exact ⟨rfl, e', rfl⟩
  | ok fragments =>
    obtain ⟨fragment, _, hfragment⟩ := exists_right_of_mem (mapM_ok_iff.mp hmap) table htable
    rw [hsql, he] at hfragment
    exact nomatch hfragment

/-- Without path sources the schemas and the access levels come first. -/
theorem loadSchemas_refused (hsources : sources.pathSources.text = []) {e : String}
    (h : catalogRelationSQL sources.schemas sources.sqlTables = .error e ∨
      catalogRelationSQL sources.access sources.sqlTables = .error e) :
    Refused (loadSchemas answers sources) := by
  rw [loadSchemas, pathSnapshot, if_pos (by simp [hsources]),
    Logged.bind_ok (a := sources.snapshotId) rfl]
  cases hschemas : catalogRelationSQL sources.schemas sources.sqlTables with
  | error e' =>
    rw [Logged.bind_error (e := e') rfl]
    exact ⟨rfl, e', rfl⟩
  | ok schemas =>
    have haccess := h.resolve_left (by rw [hschemas]; intro h; cases h)
    rw [Logged.bind_ok (a := schemas) rfl, haccess, Logged.bind_error (e := e) rfl]
    exact ⟨rfl, e, rfl⟩

/-- Schemas and access levels that pass are asked for. -/
theorem loadSchemas_queries (hsources : sources.pathSources.text = []) {schemas access : Fragment}
    (hschemas : catalogRelationSQL sources.schemas sources.sqlTables = .ok schemas)
    (haccess : catalogRelationSQL sources.access sources.sqlTables = .ok access) :
    (loadSchemas answers sources).log ≠ [] := by
  rw [loadSchemas, pathSnapshot, if_pos (by simp [hsources]),
    Logged.bind_ok (a := sources.snapshotId) rfl, hschemas, Logged.bind_ok (a := schemas) rfl,
    haccess, Logged.bind_ok (a := access) rfl, schemaFilter, if_neg (by simp [hsources]),
    Logged.bind_ok (a := []) rfl]
  cases hplans : answers.accessPlans with
  | error e =>
    rw [Logged.bind_error (e := e) rfl]
    exact List.cons_ne_nil _ _
  | ok plans =>
    rw [Logged.bind_ok (a := plans) rfl]
    exact List.cons_ne_nil _ _

/-- The commit record is asked for with vetted relations, and the tables stay as they are. -/
theorem resolveCommittedSnapshot_guarded (h : sources.Guarded) :
    (resolveCommittedSnapshot answers sources).Ensures FragmentsVetted
      CatalogSources.Guarded := by
  rw [resolveCommittedSnapshot]
  split_ifs with hskip
  · exact Logged.ensures_pure h
  · rw [Bool.or_eq_true, Bool.or_eq_true, not_or, not_or, decide_eq_true_eq, not_not] at hskip
    obtain ⟨⟨hsql, hsome⟩, hid⟩ := hskip
    have htables : sources.sqlTables = true := by simpa using hsql
    obtain ⟨hsnapshots, hcommits⟩ := ((h.record htables).resolve_left (by simp [hid])).resolve_left
      (by simpa using hsome)
    have hsafe : (Fragment.unquoted sources.snapshots).Vetted := Or.inl hsnapshots
    have hquery : FragmentsVetted (recordFragments sources) := by
      rw [recordFragments]
      split_ifs with hempty
      · exact List.forall_mem_singleton.mpr hsafe
      · exact List.forall_mem_cons.mpr ⟨hsafe, List.forall_mem_singleton.mpr
          (Or.inl (hcommits.resolve_left (by simpa using hempty)))⟩
    exact (Logged.ensures_perform (Q := fun _ => True) hquery fun _ _ => trivial).bind
      fun snapshotId _ => Logged.ensures_pure
        ⟨h.tables, h.pathSources, fun _ => Or.inr (Or.inr ⟨hsnapshots, hcommits⟩)⟩

end Guarded

/-! ### When only vetted relations are spliced -/

/-- The texts that a user gives are names where they are spliced, and a table that is not a name
    is found before the first query. -/
def ParametersVetted (world : World) (catalogPath : List Char) (parameters : CatalogParameters) :
    Prop :=
  world.isRootIcebergCatalog catalogPath = true ∨
    let tablePrefix := effectivePrefix world catalogPath parameters
    (tablePrefix ≠ [] → isSafeQualifiedName tablePrefix = true →
      parameters.snapshotId ≠ "" ∨ parameters.commitsTable = [] ∨
        isSafeQualifiedName parameters.commitsTable = true) ∧
    (tablePrefix = [] → anyOverride parameters = true → missingOverride parameters = false →
      RecordVetted parameters.snapshotsTable parameters.commitsTable parameters.snapshotId ∧
        (∀ text ∈ parameters.tables, isInternalIcebergRelation text = false) ∧
        ((∀ text ∈ parameters.tables, isSafeQualifiedName text = true) ∨
          (parameters.snapshotId ≠ "" ∨ parameters.snapshotsTable = []) ∧
            (isSafeQualifiedName parameters.schemasTable = false ∨
              isSafeQualifiedName parameters.accessTable = false)))

section Exact

variable {world : World} {catalogPath : List Char} {parameters : CatalogParameters}

theorem rootIcebergRelation_produced {table : String} {snapshot : Int} {relation : Relation}
    (h : rootIcebergRelation world catalogPath table snapshot = .ok relation) :
    relation.produced = true := by
  obtain ⟨tasks, _, h⟩ := bind_ok_iff.mp h
  obtain ⟨paths, _, h⟩ := bind_ok_iff.mp h
  exact Except.ok.inj h ▸ rfl

theorem resolveIceberg_guarded {answers : Answers} :
    (resolveIceberg world answers catalogPath).Ensures FragmentsVetted
      CatalogSources.Guarded := by
  have hrelation : ∀ table snapshot, (Logged.lift (rootIcebergRelation world catalogPath table
      snapshot) : Session Relation).Ensures FragmentsVetted fun r => r.produced = true :=
    fun table snapshot => Logged.ensures_lift fun _ => rootIcebergRelation_produced
  have hany : ∀ {α : Type} {result : Except String α},
      (Logged.lift result : Session α).Ensures FragmentsVetted fun _ => True :=
    Logged.ensures_lift fun _ _ => trivial
  have hquery : ∀ {α : Type} {relation : Relation} {answer : Except String α},
      relation.produced = true →
        (query [.unquoted relation] answer).Ensures FragmentsVetted fun _ => True :=
    fun h => Logged.ensures_perform (List.forall_mem_singleton.mpr (Or.inr h)) fun _ _ => trivial
  refine (hrelation _ _).bind fun commits hcommits => (hquery hcommits).bind fun snapshotId _ => ?_
  refine (hrelation _ _).bind fun snapshots hsnapshots => (hquery hsnapshots).bind fun rows _ => ?_
  refine hany.bind fun versions _ => ?_
  refine hany.bind fun filesVersion _ => hany.bind fun schemasVersion _ => ?_
  refine hany.bind fun accessVersion _ => hany.bind fun basketsVersion _ => ?_
  refine (hrelation _ _).bind fun files hfiles => (hrelation _ _).bind fun schemas hschemas => ?_
  refine (hrelation _ _).bind fun access haccess => (hrelation _ _).bind fun baskets hbaskets => ?_
  refine Logged.Ensures.bind (Q := fun r => r.text = [] ∨ r.produced = true)
    (Logged.ensures_lift fun r hr => ?_) fun pathSources hpath => Logged.ensures_pure ⟨?_, hpath, ?_⟩
  · cases hlookup : versions.lookup "path_sources" with
    | none =>
      rw [hlookup] at hr
      exact Or.inl (Except.ok.inj hr ▸ rfl)
    | some version =>
      rw [hlookup] at hr
      exact Or.inr (rootIcebergRelation_produced hr)
  · rintro - (_ | _ | _ | _)
    · exact Or.inl hfiles
    · exact Or.inl hschemas
    · exact Or.inl haccess
    · exact Or.inl hbaskets
  · exact fun _ => Or.inr (Or.inl rfl)

theorem not_internal_of_safe {text : List Char} (h : isSafeQualifiedName text = true) :
    isInternalIcebergRelation text = false := by
  by_contra hinternal
  rw [Bool.not_eq_false] at hinternal
  rw [not_safe_of_internal hinternal] at h
  exact nomatch h

/-- A name passes. -/
theorem catalogRelationSQL_safe {source : Relation}
    (h : isSafeQualifiedName source.text = true) :
    catalogRelationSQL source true = .ok (.unquoted source) := by
  rw [catalogRelationSQL, if_pos rfl, if_neg (by rw [not_internal_of_safe h]; decide),
    if_neg (by rw [h]; decide)]

/-- What is neither a name nor looks like a relation is refused. -/
theorem catalogRelationSQL_unsafe {source : Relation}
    (hinternal : isInternalIcebergRelation source.text = false)
    (hsafe : isSafeQualifiedName source.text = false) :
    ∃ e, catalogRelationSQL source true = .error e :=
  ⟨_, by rw [catalogRelationSQL, if_pos rfl, if_neg (by rw [hinternal]; decide),
    if_pos (by rw [hsafe]; rfl)]⟩

theorem prefixSources_guarded {tablePrefix : List Char}
    (hsafe : isSafeQualifiedName tablePrefix = true)
    (hcommits : parameters.snapshotId ≠ "" ∨ parameters.commitsTable = [] ∨
      isSafeQualifiedName parameters.commitsTable = true) :
    (prefixSources tablePrefix parameters).Guarded := by
  refine ⟨?_, Or.inl rfl, fun _ => ?_⟩
  · rintro - (_ | _ | _ | _)
    · exact Or.inr (not_internal_of_safe (safe_append hsafe (by decide)))
    · exact Or.inr (not_internal_of_safe (safe_append hsafe (by decide)))
    · exact Or.inr (not_internal_of_safe (safe_append hsafe (by decide)))
    · exact Or.inr (not_internal_of_safe (safe_append hsafe (by decide)))
  · rcases hcommits with hid | hcommits
    · exact Or.inl hid
    · exact Or.inr (Or.inr ⟨safe_append hsafe (by decide), hcommits⟩)

theorem table_mem_tables (table : MetadataTable) :
    ((overrideSources parameters).table table).text ∈ parameters.tables := by
  cases table <;> simp [overrideSources, CatalogSources.table, CatalogParameters.tables]

theorem overrideSources_guarded
    (hrecord : RecordVetted parameters.snapshotsTable parameters.commitsTable
      parameters.snapshotId)
    (htables : ∀ text ∈ parameters.tables, isInternalIcebergRelation text = false) :
    (overrideSources parameters).Guarded :=
  ⟨fun _ table => Or.inr (htables _ (table_mem_tables table)), Or.inl rfl, fun _ => hrecord⟩

theorem openCatalog_guarded (h : ParametersVetted world catalogPath parameters)
    (answers : Answers) :
    (openCatalog world answers catalogPath parameters).Ensures FragmentsVetted
      CatalogSources.Guarded := by
  refine Logged.Ensures.bind (Q := CatalogSources.Guarded) ?_ fun sources hsources =>
    resolveCommittedSnapshot_guarded hsources
  rw [resolveSources]
  by_cases hiceberg : world.isRootIcebergCatalog catalogPath = true
  · rw [if_pos hiceberg]
    exact resolveIceberg_guarded
  · rw [if_neg hiceberg]
    obtain ⟨hwhole, hoverride⟩ := h.resolve_left hiceberg
    split_ifs with hsome hunsafe hany hmissing
    · exact Logged.ensures_lift fun _ h => (nomatch h)
    · have hsafe : isSafeQualifiedName (effectivePrefix world catalogPath parameters) = true := by
        simpa using hunsafe
      exact Logged.ensures_pure
        (prefixSources_guarded hsafe (hwhole (by simpa using hsome) hsafe))
    · exact Logged.ensures_lift fun _ h => (nomatch h)
    · obtain ⟨hrecord, htables, -⟩ :=
        hoverride (by simpa using hsome) hany (by simpa using hmissing)
      exact Logged.ensures_pure (overrideSources_guarded hrecord htables)
    · refine Logged.Ensures.bind (Q := fun _ => True) (Logged.ensures_lift fun _ _ => trivial)
        fun manifest _ => Logged.ensures_pure ⟨fun h => (nomatch h), Or.inl rfl, fun h => (nomatch h)⟩

/-- Opening a catalog whose sources are given at once. -/
theorem openCatalog_of_pure {answers : Answers} {sources : CatalogSources}
    (h : resolveSources world answers catalogPath parameters = pure sources) :
    openCatalog world answers catalogPath parameters =
      resolveCommittedSnapshot answers sources := by
  rw [openCatalog, h, Logged.bind_ok (x := pure sources) (a := sources) rfl]
  rfl

/-- A database whose queries all answer. -/
def someAnswers : Answers where
  latestGeneration := .ok "g"
  snapshotMapping := .ok []
  committedSnapshot := .ok "g"
  pathOrigins := .ok []
  generationRows := .ok 0
  accessPlans := .ok []
  accessPlan := fun _ => .ok ()
  rows := .ok ()

theorem recordVetted_of_opened {sources : CatalogSources}
    (h : OnlyVetted (resolveCommittedSnapshot someAnswers sources))
    (htables : sources.sqlTables = true) (hsnapshots : sources.snapshots.produced = false)
    (hcommits : sources.commits.produced = false) :
    RecordVetted sources.snapshots.text sources.commits.text sources.snapshotId := by
  by_contra hrecord
  rw [RecordVetted, not_or, not_or, not_not] at hrecord
  obtain ⟨hid, hsome, hunsafe⟩ := hrecord
  have hquery : FragmentsVetted (recordFragments sources) := by
    refine h _ ?_
    rw [resolveCommittedSnapshot, if_neg (by simp [htables, hid, hsome])]
    exact List.mem_append_left _ List.mem_cons_self
  refine hunsafe ⟨?_, ?_⟩
  · have hmem : Fragment.unquoted sources.snapshots ∈ recordFragments sources := by
      rw [recordFragments]
      split_ifs <;> exact List.mem_cons_self
    exact (hquery _ hmem).resolve_right (by simp [hsnapshots])
  · by_cases hempty : sources.commits.text = []
    · exact Or.inl hempty
    · have hmem : Fragment.unquoted sources.commits ∈ recordFragments sources := by
        rw [recordFragments, if_neg (by simpa using hempty)]
        exact List.mem_cons_of_mem _ List.mem_cons_self
      exact Or.inr ((hquery _ hmem).resolve_right (by simp [hcommits]))

/-- The tables of an opened catalog are those of its sources. -/
theorem resolveCommittedSnapshot_table {sources : CatalogSources} :
    ∃ opened, (resolveCommittedSnapshot someAnswers sources).result = .ok opened ∧
      opened.table = sources.table ∧ opened.sqlTables = sources.sqlTables := by
  rw [resolveCommittedSnapshot]
  split_ifs
  · exact ⟨sources, rfl, rfl, rfl⟩
  · refine ⟨{ sources with snapshotId := "g" }, rfl, ?_, rfl⟩
    funext table
    cases table <;> rfl

section Overrides

variable (hiceberg : world.isRootIcebergCatalog catalogPath ≠ true)
  (hnone : effectivePrefix world catalogPath parameters = [])
  (hany : anyOverride parameters = true) (hmissing : missingOverride parameters = false)

include hiceberg hnone hany hmissing

theorem resolveSources_overrides (answers : Answers) :
    resolveSources world answers catalogPath parameters = pure (overrideSources parameters) := by
  rw [resolveSources, if_neg hiceberg, if_neg (by simp [hnone]), if_pos hany,
    if_neg (by simp [hmissing])]

/-- A scan of a table alone splices its text, so none looks like a relation. -/
theorem not_internal_of_spliced (h : SplicesVetted world catalogPath parameters)
    (table : MetadataTable) :
    isInternalIcebergRelation ((overrideSources parameters).table table).text = false := by
  obtain ⟨opened, hresult, htable, hsql⟩ :=
    @resolveCommittedSnapshot_table (overrideSources parameters)
  by_contra hinternal
  rw [Bool.not_eq_false] at hinternal
  have hvetted := h.scanned someAnswers opened [table] (by
    rw [openCatalog_of_pure (resolveSources_overrides hiceberg hnone hany hmissing someAnswers),
      hresult])
  have hsplice : catalogRelationSQL (opened.table table) opened.sqlTables =
      .ok (.unquoted (opened.table table)) := by
    rw [hsql, htable, catalogRelationSQL, if_pos hinternal]
    rfl
  have hmem : [Fragment.unquoted (opened.table table)] ∈
      (scanTables someAnswers opened [table]).log := by
    have hmap : ([table].mapM fun table =>
        catalogRelationSQL (opened.table table) opened.sqlTables) =
          .ok [.unquoted (opened.table table)] :=
      mapM_ok_iff.mpr (.cons hsplice .nil)
    rw [scanTables_log hmap]
    exact List.mem_cons_self
  have hunquoted := hvetted _ hmem _ List.mem_cons_self
  rw [htable] at hunquoted
  rcases hunquoted with hsafe | hproduced
  · rw [not_safe_of_internal hinternal] at hsafe
    exact nomatch hsafe
  · cases table <;> exact nomatch hproduced

/-- Tables that are refused before any query leave no query ahead of them, neither for the
    commit record nor for the schemas. -/
theorem refused_before_queries
    (hrefused : Refused (openAndLoad world someAnswers catalogPath parameters)) :
    (parameters.snapshotId ≠ "" ∨ parameters.snapshotsTable = []) ∧
      (isSafeQualifiedName parameters.schemasTable = false ∨
        isSafeQualifiedName parameters.accessTable = false) := by
  have hlog := hrefused.1
  rw [openAndLoad,
    openCatalog_of_pure (resolveSources_overrides hiceberg hnone hany hmissing someAnswers),
    resolveCommittedSnapshot] at hlog
  split at hlog
  next hskip =>
    constructor
    · rw [Bool.or_eq_true, Bool.or_eq_true, decide_eq_true_eq] at hskip
      rcases hskip with (htables | hsnapshots) | hid
      · cases htables
      · exact Or.inr (List.isEmpty_iff.mp hsnapshots)
      · exact Or.inl hid
    · rw [Logged.bind_ok (a := overrideSources parameters) rfl] at hlog
      by_contra hsafe
      rw [not_or, Bool.not_eq_false, Bool.not_eq_false] at hsafe
      have hschemas : catalogRelationSQL (overrideSources parameters).schemas true =
          .ok (.unquoted (overrideSources parameters).schemas) := catalogRelationSQL_safe hsafe.1
      have haccess : catalogRelationSQL (overrideSources parameters).access true =
          .ok (.unquoted (overrideSources parameters).access) := catalogRelationSQL_safe hsafe.2
      exact loadSchemas_queries rfl hschemas haccess hlog
  next =>
    rw [Logged.bind_ok (a := { overrideSources parameters with snapshotId := "g" }) rfl] at hlog
    cases hlog

end Overrides

/-- Where the parameters are vetted, an input that is not ends with an error before a query: the
    prefix and the number of the tables are looked at first, and of four tables one that is
    loaded first is no name. -/
theorem openAndLoad_refused (h : ParametersVetted world catalogPath parameters) (answers : Answers)
    (hinput : ¬ InputVetted world catalogPath parameters) :
    Refused (openAndLoad world answers catalogPath parameters) := by
  rw [InputVetted, not_or] at hinput
  obtain ⟨hiceberg, hinput⟩ := hinput
  obtain ⟨hwhole, hoverride⟩ := h.resolve_left hiceberg
  have herror (hresolve : ∃ e, resolveSources world answers catalogPath parameters =
      .lift (.error e)) : Refused (openAndLoad world answers catalogPath parameters) := by
    obtain ⟨e, hresolve⟩ := hresolve
    rw [openAndLoad, openCatalog, hresolve, Logged.bind_error (e := e) rfl,
      Logged.bind_error (e := e) rfl]
    exact ⟨rfl, e, rfl⟩
  by_cases hnone : effectivePrefix world catalogPath parameters = []
  · by_cases hany : anyOverride parameters = true
    · cases hmissing : missingOverride parameters with
      | true =>
        exact herror ⟨_, by rw [resolveSources, if_neg hiceberg, if_neg (by simp [hnone]),
          if_pos hany, if_pos hmissing]⟩
      | false =>
        obtain ⟨hrecord, hinternal, htables⟩ := hoverride hnone hany hmissing
        obtain ⟨hunasked, hunsafe⟩ := htables.resolve_left fun hsafe =>
          hinput ⟨fun hsome => absurd hnone hsome, fun _ _ => ⟨hmissing, hrecord, hsafe⟩⟩
        have hskip : (!(overrideSources parameters).sqlTables ||
            (overrideSources parameters).snapshots.text.isEmpty ||
            (overrideSources parameters).snapshotId ≠ "") = true := by
          rw [Bool.or_eq_true, Bool.or_eq_true, decide_eq_true_eq]
          rcases hunasked with hid | hsnapshots
          · exact Or.inr hid
          · exact Or.inl (Or.inr (List.isEmpty_iff.mpr hsnapshots))
        rw [openAndLoad,
          openCatalog_of_pure (resolveSources_overrides hiceberg hnone hany hmissing answers),
          resolveCommittedSnapshot, if_pos hskip,
          Logged.bind_ok (a := overrideSources parameters) rfl]
        rcases hunsafe with hschemas | haccess
        · obtain ⟨e, he⟩ : ∃ e, catalogRelationSQL (overrideSources parameters).schemas true =
              .error e :=
            catalogRelationSQL_unsafe (hinternal _ (table_mem_tables .schemas)) hschemas
          exact loadSchemas_refused rfl (Or.inl he)
        · obtain ⟨e, he⟩ : ∃ e, catalogRelationSQL (overrideSources parameters).access true =
              .error e :=
            catalogRelationSQL_unsafe (hinternal _ (table_mem_tables .access)) haccess
          exact loadSchemas_refused rfl (Or.inr he)
    · exact absurd ⟨fun hsome => absurd hnone hsome, fun _ hall => absurd hall hany⟩ hinput
  · cases hsafe : isSafeQualifiedName (effectivePrefix world catalogPath parameters) with
    | false =>
      exact herror ⟨_, by rw [resolveSources, if_neg hiceberg, if_pos (by simpa using hnone),
        if_pos (by simp [hsafe])]⟩
    | true =>
      refine absurd ⟨fun _ => ⟨hsafe, ?_⟩, fun hempty => absurd hempty hnone⟩ hinput
      rcases hwhole hnone hsafe with hid | hcommits
      · exact Or.inl hid
      · exact Or.inr (Or.inr ⟨safe_append hsafe (by decide), hcommits⟩)

/-- **Only vetted relations are spliced**, and every other input is refused before a query, just
    when the user's texts are names where they are spliced (the commit ledger and the snapshots
    are, and no table looks like a relation) and no query runs ahead of a table that is not a
    name. -/
theorem splicesVetted_iff (world : World) (catalogPath : List Char)
    (parameters : CatalogParameters) :
    SplicesVetted world catalogPath parameters ↔
      ParametersVetted world catalogPath parameters := by
  constructor
  · intro h
    by_cases hiceberg : world.isRootIcebergCatalog catalogPath = true
    · exact Or.inl hiceberg
    · refine Or.inr ⟨fun hsome hsafe => ?_, fun hnone hany hmissing => ?_⟩
      · have hsources : resolveSources world someAnswers catalogPath parameters =
            pure (prefixSources (effectivePrefix world catalogPath parameters) parameters) := by
          rw [resolveSources, if_neg hiceberg, if_pos (by simpa using hsome),
            if_neg (by simp [hsafe])]
        have hopened := h.opened someAnswers
        rw [openCatalog_of_pure hsources] at hopened
        rcases recordVetted_of_opened hopened rfl rfl rfl with hid | hnil | ⟨_, hcommits⟩
        · exact Or.inl hid
        · exact absurd hnil (by simp [prefixSources])
        · exact Or.inr hcommits
      · have hopened := h.opened someAnswers
        rw [openCatalog_of_pure
          (resolveSources_overrides hiceberg hnone hany hmissing someAnswers)] at hopened
        refine ⟨recordVetted_of_opened hopened rfl rfl rfl, ?_, ?_⟩
        · have hscan := not_internal_of_spliced hiceberg hnone hany hmissing h
          simp only [CatalogParameters.tables, List.forall_mem_cons]
          exact ⟨hscan .files, hscan .schemas, hscan .access, hscan .baskets,
            fun _ h => absurd h List.not_mem_nil⟩
        · by_cases hsafe : ∀ text ∈ parameters.tables, isSafeQualifiedName text = true
          · exact Or.inl hsafe
          · refine Or.inr (refused_before_queries hiceberg hnone hany hmissing
              (h.inputRefused someAnswers ?_))
            rintro (hcatalog | ⟨-, hoverride⟩)
            · exact hiceberg hcatalog
            · exact hsafe (hoverride hnone hany).2.2
  · intro h
    refine ⟨fun answers => (openCatalog_guarded h answers).1, fun answers sources hopened => ?_,
      fun answers sources tables hopened => ?_, fun answers => openAndLoad_refused h answers,
      fun answers sources tables hopened => ?_⟩
    · exact (loadSchemas_vetted ((openCatalog_guarded h answers).2 sources hopened)).1
    · exact (scanTables_vetted ((openCatalog_guarded h answers).2 sources hopened) tables).1
    · exact fun hsql hunvetted =>
        scanTables_refused ((openCatalog_guarded h answers).2 sources hopened) hsql hunvetted

end Exact

/-- No Iceberg catalog, and no file. -/
def emptyWorld : World where
  isRootIcebergCatalog := fun _ => false
  planFiles := fun _ _ _ => .error "Missing table"
  pathExists := fun _ => false
  manifest := fun _ => .error "Cannot open ROOT lake catalog manifest"

/-- Four tables by name, and a commit record that is a subquery. -/
def ledgerParameters : CatalogParameters where
  catalogPrefix := []
  filesTable := "f".toList
  schemasTable := "s".toList
  accessTable := "a".toList
  basketsTable := "b".toList
  snapshotsTable := "(SELECT 1)".toList
  commitsTable := []
  snapshotId := ""

/-- A snapshots table of any text is asked for as it stands. -/
theorem snapshots_text_spliced : ¬ SplicesVetted emptyWorld [] ledgerParameters := by
  intro h
  have hvetted := h.opened someAnswers [.unquoted ⟨"(SELECT 1)".toList, false⟩]
    (by exact List.mem_cons_self)
  rcases hvetted _ List.mem_cons_self with hsafe | hproduced
  · exact absurd hsafe (by decide)
  · exact nomatch hproduced

end RootLake.Dataset

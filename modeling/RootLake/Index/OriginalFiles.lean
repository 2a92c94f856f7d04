/-
  RootLake/Index/OriginalFiles.lean
  =================================
  **The files of a committed generation against the plans of a new one.**

  A path extension reads the recorded files of every origin snapshot in the order of their
  event bases and compares them with its plans by position.  A file without entries has the
  event base of the file behind it, and `ORDER BY` promises nothing about rows that tie: the
  comparison sees the recorded order only when the event bases increase strictly.
-/
import RootLake.Index.FilePlans
import RootLake.Lib.Query
import Mathlib.Algebra.Order.Ring.Nat
import Mathlib.Data.Finset.Sort
import Mathlib.Data.String.Basic

namespace RootLake.Index

open RootLake.Query RootLake.Dataset

/-! ### Recorded files -/

/-- The columns of the files relation that the comparison selects. -/
structure FileIdentity where
  rootUri : String
  fileSize : UInt64
  mtimeNs : Int
  eventBase : UInt64
  totalEntries : UInt64
  treeName : String
  deriving DecidableEq, Repr

/-- A row of the files relation, which has one for each file and path. -/
structure CommittedFileRow where
  snapshotId : String
  datasetId : String
  identity : FileIdentity
  deriving DecidableEq, Repr

/-- A file as a build found it. -/
structure BuiltFile where
  path : String
  fileSize : UInt64
  mtimeNs : Int
  entries : UInt64
  treeName : String
  deriving DecidableEq, Repr

/-- What a build records of files that are all indexed with their inspected entry counts. -/
def recordFiles (eventBase : UInt64) : List BuiltFile → List FileIdentity
  | [] => []
  | file :: rest =>
      { rootUri := file.path
        fileSize := file.fileSize
        mtimeNs := file.mtimeNs
        eventBase := eventBase
        totalEntries := file.entries
        treeName := file.treeName } :: recordFiles (eventBase + file.entries) rest

theorem recordFiles_rootUri (files : List BuiltFile) :
    ∀ base, (recordFiles base files).map FileIdentity.rootUri = files.map BuiltFile.path := by
  induction files with
  | nil => exact fun _ => rfl
  | cons file files ih =>
    intro base
    rw [recordFiles, List.map_cons, List.map_cons, ih]

/-- Files with different paths are recorded once each. -/
theorem recordFiles_nodup {files : List BuiltFile} (hpaths : (files.map BuiltFile.path).Nodup)
    (base : UInt64) : (recordFiles base files).Nodup := by
  rw [← recordFiles_rootUri files base] at hpaths
  exact hpaths.of_map

/-! ### The comparison -/

/-- The new run, as far as the comparison reads it. -/
structure ExtensionRun where
  datasetId : String
  treeName : String
  localFileSize : String → UInt64
  localMtimeNS : String → Int
  plans : List RootIndexFilePlan

/-- A plan agrees with a recorded file. -/
structure ExtensionRun.Agrees (run : ExtensionRun) (plan : RootIndexFilePlan)
    (file : FileIdentity) : Prop where
  inspected : plan.error = ""
  path : file.rootUri = plan.path
  fileSize : file.fileSize = run.localFileSize plan.path
  mtimeNs : file.mtimeNs = run.localMtimeNS plan.path
  eventBase : file.eventBase = plan.eventBase
  entries : file.totalEntries = plan.entries
  treeName : file.treeName = run.treeName

section

variable (run : ExtensionRun)

/-- The loop over the rows of one origin. -/
def validateRows : List RootIndexFilePlan → List FileIdentity → Except String Unit
  | [], [] => .ok ()
  | _ :: _, [] =>
      .error "ROOT index extension input file count differs from the committed generation"
  | [], _ :: _ => .error "ROOT index extension has incompatible input files"
  | plan :: plans, row :: rows =>
      if plan.error ≠ "" then .error "ROOT index extension has incompatible input files"
      else if row.rootUri ≠ plan.path ∨ row.fileSize ≠ run.localFileSize plan.path ∨
          row.mtimeNs ≠ run.localMtimeNS plan.path ∨ row.eventBase ≠ plan.eventBase ∨
          row.totalEntries ≠ plan.entries ∨ row.treeName ≠ run.treeName then
        .error ("ROOT index extension source identity changed: " ++ plan.path)
      else validateRows plans rows

/-- The origins in the order of a `std::set`. -/
def originsOf (paths : List (String × String)) : List String :=
  (paths.map Prod.snd).toFinset.sort

/-- The loop over the origins; `results` are the rows the query returns for each. -/
def validateOrigins (results : String → List FileIdentity) : List String → Except String Unit
  | [] => .ok ()
  | origin :: origins =>
      match validateRows run run.plans (results origin) with
      | .error e => .error e
      | .ok () => validateOrigins results origins

def validateOriginalFiles (results : String → List FileIdentity)
    (paths : List (String × String)) : Except String Unit :=
  validateOrigins run results (originsOf paths)

/-- The rows the query selects from. -/
def originRows (files : List CommittedFileRow) (origin : String) : List FileIdentity :=
  (files.filter fun row => row.snapshotId == origin && row.datasetId == run.datasetId).map
    CommittedFileRow.identity

/-- What the query may return: distinct rows `ORDER BY event_base`. -/
def Answers (files : List CommittedFileRow) (origin : String) (result : List FileIdentity) : Prop :=
  SelectDistinct id (fun file => file.eventBase.toNat) (originRows run files origin) result

/-- The origin's rows are those of a build of the given files. -/
structure Records (files : List CommittedFileRow) (origin : String) (built : List BuiltFile) :
    Prop where
  rows : ∀ file, file ∈ originRows run files origin ↔ file ∈ recordFiles 0 built
  paths : (built.map BuiltFile.path).Nodup

/-- The plans agree one by one with the recorded files. -/
def AgreesWith (recorded : List FileIdentity) : Prop :=
  List.Forall₂ run.Agrees run.plans recorded

/-- The plans agree with the recorded files in some order of their event bases. -/
def AgreesReordered (recorded : List FileIdentity) : Prop :=
  ∃ order, SelectOrdered (fun file : FileIdentity => file.eventBase.toNat) recorded order ∧
    AgreesWith run order

/-- The recorded event bases increase from file to file. -/
def IncreasingBases (recorded : List FileIdentity) : Prop :=
  recorded.Pairwise fun left right => left.eventBase.toNat < right.eventBase.toNat

variable {run}

/-! ### What the comparison decides -/

theorem validateRows_ok_iff {plans : List RootIndexFilePlan} {rows : List FileIdentity} :
    validateRows run plans rows = .ok () ↔ List.Forall₂ run.Agrees plans rows := by
  induction plans generalizing rows with
  | nil =>
    cases rows with
    | nil => exact ⟨fun _ => .nil, fun _ => rfl⟩
    | cons row rows => exact ⟨fun h => (by cases h), fun h => (by cases h)⟩
  | cons plan plans ih =>
    cases rows with
    | nil => exact ⟨fun h => (by cases h), fun h => (by cases h)⟩
    | cons row rows =>
      rw [validateRows, List.forall₂_cons]
      by_cases herror : plan.error ≠ ""
      · rw [if_pos herror]
        exact ⟨fun h => (by cases h), fun h => absurd h.1.inspected herror⟩
      · rw [if_neg herror]
        split
        next hdiffers =>
          refine ⟨fun h => (by cases h), fun ⟨hagrees, _⟩ => ?_⟩
          rcases hdiffers with h | h | h | h | h | h
          · exact absurd hagrees.path h
          · exact absurd hagrees.fileSize h
          · exact absurd hagrees.mtimeNs h
          · exact absurd hagrees.eventBase h
          · exact absurd hagrees.entries h
          · exact absurd hagrees.treeName h
        next hsame =>
          simp only [not_or, not_not] at hsame
          obtain ⟨hpath, hsize, hmtime, hbase, hentries, htree⟩ := hsame
          rw [ih]
          exact ⟨fun h => ⟨⟨not_not.mp herror, hpath, hsize, hmtime, hbase, hentries, htree⟩, h⟩,
            fun h => h.2⟩

theorem validateOrigins_ok_iff {results : String → List FileIdentity} {origins : List String} :
    validateOrigins run results origins = .ok () ↔
      ∀ origin ∈ origins, AgreesWith run (results origin) := by
  induction origins with
  | nil => exact ⟨fun _ _ h => absurd h List.not_mem_nil, fun _ => rfl⟩
  | cons origin origins ih =>
    rw [validateOrigins, List.forall_mem_cons, ← ih, AgreesWith, ← validateRows_ok_iff]
    cases hrows : validateRows run run.plans (results origin) with
    | error e => exact ⟨fun h => (by cases h), fun h => (by cases h.1)⟩
    | ok _ => exact ⟨fun h => ⟨rfl, h⟩, fun h => h.2⟩

theorem ExtensionRun.Agrees.unique {plan : RootIndexFilePlan} {first second : FileIdentity}
    (hfirst : run.Agrees plan first) (hsecond : run.Agrees plan second) : first = second := by
  cases first
  cases second
  simp only [FileIdentity.mk.injEq]
  exact ⟨hfirst.path.trans hsecond.path.symm, hfirst.fileSize.trans hsecond.fileSize.symm,
    hfirst.mtimeNs.trans hsecond.mtimeNs.symm, hfirst.eventBase.trans hsecond.eventBase.symm,
    hfirst.entries.trans hsecond.entries.symm, hfirst.treeName.trans hsecond.treeName.symm⟩

/-- The plans determine the files they agree with. -/
theorem AgreesWith.unique {first second : List FileIdentity} (hfirst : AgreesWith run first)
    (hsecond : AgreesWith run second) : first = second := by
  unfold AgreesWith at hfirst hsecond
  generalize run.plans = plans at hfirst hsecond
  induction hfirst generalizing second with
  | nil =>
    cases hsecond
    rfl
  | cons hagrees _ ih =>
    cases hsecond with
    | cons hagrees' hrest =>
      rw [hagrees.unique hagrees', ih hrest]

theorem Records.answers_iff {files : List CommittedFileRow} {origin : String}
    {built : List BuiltFile} (h : Records run files origin built) {result : List FileIdentity} :
    Answers run files origin result ↔
      SelectOrdered (fun file => file.eventBase.toNat) (recordFiles 0 built) result :=
  selectDistinct_iff h.rows (recordFiles_nodup h.paths 0)

/-- Increasing bases leave one answer. -/
theorem answer_eq_of_increasing {recorded result : List FileIdentity}
    (h : SelectOrdered (fun file => file.eventBase.toNat) recorded result)
    (hincreasing : IncreasingBases recorded) : result = recorded :=
  h.eq_of_strict hincreasing

theorem recordFiles_base_le (built : List BuiltFile) :
    ∀ {base : UInt64}, base.toNat + (built.map fun file => file.entries.toNat).sum < 2 ^ 64 →
      ∀ file ∈ recordFiles base built, base.toNat ≤ file.eventBase.toNat := by
  induction built with
  | nil => exact fun _ _ h => absurd h List.not_mem_nil
  | cons first rest ih =>
    intro base hfits file hfile
    rw [List.map_cons, List.sum_cons] at hfits
    have hnext : (base + first.entries).toNat = base.toNat + first.entries.toNat :=
      toNat_add_of_lt (by omega)
    rcases List.mem_cons.mp hfile with rfl | hfile
    · exact Nat.le_refl _
    · have := @ih (base + first.entries) (by omega) file hfile
      omega

/-- The bases increase when no file without entries stands ahead of another one. -/
theorem increasingBases_iff (built : List BuiltFile) :
    ∀ {base : UInt64}, base.toNat + (built.map fun file => file.entries.toNat).sum < 2 ^ 64 →
      (IncreasingBases (recordFiles base built) ↔
        ∀ file ∈ built.dropLast, file.entries ≠ 0) := by
  induction built with
  | nil => exact fun _ => ⟨fun _ _ h => absurd h List.not_mem_nil, fun _ => List.Pairwise.nil⟩
  | cons first rest ih =>
    intro base hfits
    rw [List.map_cons, List.sum_cons] at hfits
    have hnext : (base + first.entries).toNat = base.toNat + first.entries.toNat :=
      toNat_add_of_lt (by omega)
    have hbehind := @recordFiles_base_le rest (base + first.entries) (by omega)
    have hrest := @ih (base + first.entries) (by omega)
    unfold IncreasingBases at hrest ⊢
    cases rest with
    | nil => exact ⟨fun _ _ h => absurd h List.not_mem_nil, fun _ => List.pairwise_singleton _ _⟩
    | cons second rest =>
      rw [recordFiles, List.pairwise_cons, List.dropLast_cons_cons, List.forall_mem_cons, hrest]
      refine and_congr_left fun _ => ⟨fun hless hzero => ?_, fun hpositive file hfile => ?_⟩
      · have := hless _ List.mem_cons_self
        dsimp only at this
        rw [hzero, UInt64.add_zero] at this
        exact absurd this (Nat.lt_irrefl _)
      · have hle := hbehind file hfile
        have : first.entries.toNat ≠ 0 := fun h => hpositive (UInt64.toNat_inj.mp h)
        dsimp only
        omega

/-- **Validation is exact**, whatever order the query gives to rows that tie, just when the
    recorded event bases increase in every origin, or the plans agree with some origin in no order
    of its bases and with some origin not in the recorded one. -/
theorem original_files_validation_iff {files : List CommittedFileRow}
    {paths : List (String × String)} {built : String → List BuiltFile}
    (hrecords : ∀ origin ∈ originsOf paths, Records run files origin (built origin)) :
    (∀ results, (∀ origin ∈ originsOf paths, Answers run files origin (results origin)) →
        (validateOriginalFiles run results paths = .ok () ↔
          ∀ origin ∈ originsOf paths, AgreesWith run (recordFiles 0 (built origin)))) ↔
      (∀ origin ∈ originsOf paths, IncreasingBases (recordFiles 0 (built origin))) ∨
        (∃ origin ∈ originsOf paths, ¬ AgreesReordered run (recordFiles 0 (built origin))) ∧
          ∃ origin ∈ originsOf paths, ¬ AgreesWith run (recordFiles 0 (built origin)) := by
  have hanswers : ∀ results : String → List FileIdentity, (∀ origin ∈ originsOf paths,
      Answers run files origin (results origin)) ↔ ∀ origin ∈ originsOf paths,
        SelectOrdered (fun file => file.eventBase.toNat) (recordFiles 0 (built origin))
          (results origin) := fun results =>
    forall₂_congr fun origin horigin => (hrecords origin horigin).answers_iff
  simp only [hanswers, validateOriginalFiles, validateOrigins_ok_iff]
  constructor
  · intro hexact
    -- some answer for each origin, and agreement in an order where there is one
    have hsome : ∀ origin, ∃ result,
        SelectOrdered (fun file : FileIdentity => file.eventBase.toNat)
          (recordFiles 0 (built origin)) result ∧
          (AgreesReordered run (recordFiles 0 (built origin)) → AgreesWith run result) := by
      intro origin
      by_cases hreordered : AgreesReordered run (recordFiles 0 (built origin))
      · obtain ⟨order, horder, hagrees⟩ := hreordered
        exact ⟨order, horder, fun _ => hagrees⟩
      · obtain ⟨result, hresult⟩ := exists_selectOrdered
          (fun file : FileIdentity => file.eventBase.toNat) (recordFiles 0 (built origin))
        exact ⟨result, hresult, fun h => absurd h hreordered⟩
    choose results hresults hreordered using hsome
    have hiff := hexact results fun origin _ => hresults origin
    by_cases hall : ∀ origin ∈ originsOf paths, AgreesWith run (recordFiles 0 (built origin))
    · left
      intro origin horigin
      by_contra htie
      have hresult := (hiff.mpr hall origin horigin).unique (hall origin horigin)
      have hordered := hresults origin
      rw [hresult] at hordered
      obtain ⟨other, hother, hne⟩ := hordered.exists_other
        (recordFiles_nodup (hrecords origin horigin).paths 0) htie
      have hswapped := hexact (Function.update results origin other) fun o _ => by
        by_cases ho : o = origin
        · subst ho
          rw [Function.update_self]
          exact hother
        · rw [Function.update_of_ne ho]
          exact hresults o
      have hagrees := hswapped.mpr hall origin horigin
      rw [Function.update_self] at hagrees
      exact hne (hagrees.unique (hall origin horigin))
    · right
      refine ⟨?_, by simpa only [not_forall, exists_prop] using hall⟩
      by_contra hnone
      simp only [not_exists, not_and, not_not] at hnone
      exact hall (hiff.mp fun origin horigin => hreordered origin (hnone origin horigin))
  · rintro (hincreasing | ⟨⟨origin, horigin, hno⟩, other, hother, hdiffers⟩) results hresults
    · have hequal : ∀ origin ∈ originsOf paths, results origin = recordFiles 0 (built origin) :=
        fun origin horigin =>
          answer_eq_of_increasing (hresults origin horigin) (hincreasing origin horigin)
      exact forall₂_congr fun origin horigin => by rw [hequal origin horigin]
    · refine ⟨fun h => absurd ⟨_, hresults origin horigin, h origin horigin⟩ hno, fun h => ?_⟩
      exact absurd (h other hother) hdiffers

end

/-! ### Two files -/

def emptyFile : BuiltFile := ⟨"/d/a.root", 10, 1, 0, "Events"⟩

def filledFile : BuiltFile := ⟨"/d/b.root", 20, 2, 2, "Events"⟩

/-- A later run over the same files. -/
def unchangedRun (files : List BuiltFile) : ExtensionRun where
  datasetId := "d"
  treeName := "Events"
  localFileSize path := if path = "/d/a.root" then 10 else 20
  localMtimeNS path := if path = "/d/a.root" then 1 else 2
  plans := assignEventBases 0 (files.map fun file => { path := file.path, entries := file.entries })

def committedRows (files : List BuiltFile) : List CommittedFileRow :=
  (recordFiles 0 files).map fun identity => ⟨"s", "d", identity⟩

theorem originsOf_one : originsOf [("Events.x", "s")] = ["s"] := by
  simp [originsOf]

/-- Behind a file with entries an empty one does no harm. -/
theorem original_files_filled_first :
    IncreasingBases (recordFiles 0 [filledFile, emptyFile]) ∧
    ∀ results, (∀ origin ∈ originsOf [("Events.x", "s")],
        Answers (unchangedRun [filledFile, emptyFile]) (committedRows [filledFile, emptyFile]) origin
          (results origin)) →
      (validateOriginalFiles (unchangedRun [filledFile, emptyFile]) results [("Events.x", "s")] =
          .ok () ↔
        ∀ origin ∈ originsOf [("Events.x", "s")],
          AgreesWith (unchangedRun [filledFile, emptyFile])
            (recordFiles 0 [filledFile, emptyFile])) := by
  have hincreasing : IncreasingBases (recordFiles 0 [filledFile, emptyFile]) :=
    (increasingBases_iff [filledFile, emptyFile] (by decide)).mpr (by decide)
  refine ⟨hincreasing, (@original_files_validation_iff (unchangedRun [filledFile, emptyFile])
    (committedRows [filledFile, emptyFile]) [("Events.x", "s")]
    (fun _ => [filledFile, emptyFile]) fun origin horigin => ?_).mpr
      (Or.inl fun _ _ => hincreasing)⟩
  rw [originsOf_one, List.mem_singleton] at horigin
  subst horigin
  exact ⟨fun _ => Iff.rfl, by decide⟩

/-- Ahead of one it may be returned behind it, and the unchanged files are refused. -/
theorem original_files_tie_refused :
    ¬ ∀ results, (∀ origin ∈ originsOf [("Events.x", "s")],
        Answers (unchangedRun [emptyFile, filledFile]) (committedRows [emptyFile, filledFile]) origin
          (results origin)) →
      (validateOriginalFiles (unchangedRun [emptyFile, filledFile]) results [("Events.x", "s")] =
          .ok () ↔
        ∀ origin ∈ originsOf [("Events.x", "s")],
          AgreesWith (unchangedRun [emptyFile, filledFile])
            (recordFiles 0 [emptyFile, filledFile])) := by
  intro hexact
  have hanswer : Answers (unchangedRun [emptyFile, filledFile])
      (committedRows [emptyFile, filledFile]) "s" (recordFiles 0 [emptyFile, filledFile]).reverse := by
    refine ⟨?_, ?_, ?_, ?_⟩ <;> decide +kernel
  have hrefused := hexact (fun _ => (recordFiles 0 [emptyFile, filledFile]).reverse) (by
    rw [originsOf_one]
    intro origin horigin
    rw [List.mem_singleton.mp horigin]
    exact hanswer)
  rw [validateOriginalFiles, originsOf_one] at hrefused
  have hagrees : AgreesWith (unchangedRun [emptyFile, filledFile])
      (recordFiles 0 [emptyFile, filledFile]) :=
    validateRows_ok_iff.mp (by decide +kernel)
  have haccepted := hrefused.mpr fun _ _ => hagrees
  exact absurd haccepted (by decide +kernel)

end RootLake.Index

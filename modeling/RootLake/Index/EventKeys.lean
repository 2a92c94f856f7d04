/-
  RootLake/Index/EventKeys.lean
  =============================
  **When `event_fk` is a key.**

  The event bases are the running sum of the entries found by the inspection.  A worker opens
  its file again, reads the entries again and records them with the base of the plan; nothing
  compares the two counts.  A file that grows in between runs into the range of the next one.
-/
import RootLake.Index.OutputDirectory

namespace RootLake.Index

open RootLake.Runs

/-- `event_fk` of an entry of a recorded file. -/
def eventFk (row : RootFileMetadataRow) (entry : Nat) : UInt64 :=
  UInt64.ofNat row.eventBase + UInt64.ofNat entry

/-- The claim about one snapshot: the keys do not overflow and no two entries share one. -/
structure UniqueEventKeys (rows : List RootFileMetadataRow) : Prop where
  fits : ∀ row ∈ rows, ∀ entry < row.totalEntries, row.eventBase + entry < 2 ^ 64
  unique : ∀ left ∈ rows, ∀ right ∈ rows, ∀ i < left.totalEntries, ∀ j < right.totalEntries,
    eventFk left i = eventFk right j → left.rootUri = right.rootUri ∧ i = j

theorem eventFk_toNat {row : RootFileMetadataRow} {entry : Nat}
    (h : row.eventBase + entry < 2 ^ 64) : (eventFk row entry).toNat = row.eventBase + entry := by
  rw [eventFk, UInt64.toNat_add, UInt64.toNat_ofNat', UInt64.toNat_ofNat',
    Nat.mod_eq_of_lt (show row.eventBase < 2 ^ 64 by omega),
    Nat.mod_eq_of_lt (show entry < 2 ^ 64 by omega), Nat.mod_eq_of_lt h]

/-! ### Plans and what is recorded under them -/

/-- A file is recorded with the base of its plan, and within the entries of it. -/
structure Planned (plans : List RootIndexFilePlan) (checkpoint : FileCheckpoint)
    (plan : RootIndexFilePlan) : Prop where
  mem : plan ∈ plans
  path : plan.path = checkpoint.filePath
  eventBase : checkpoint.eventBase = plan.eventBase.toNat
  entries : checkpoint.source.totalEntries ≤ plan.entries.toNat

/-- Two plans whose entries do not meet. -/
def Apart (left right : RootIndexFilePlan) : Prop :=
  left.eventBase.toNat + left.entries.toNat ≤ right.eventBase.toNat ∨ right.entries.toNat = 0

/-- Every plan has its own range of keys. -/
structure Spaced (plans : List RootIndexFilePlan) : Prop where
  fits : ∀ plan ∈ plans, plan.entries.toNat ≠ 0 →
    plan.eventBase.toNat + plan.entries.toNat ≤ 2 ^ 64
  apart : plans.Pairwise Apart

theorem spaced_of_inspectFiles {entries : String → Except String UInt64} {allowPartial : Bool}
    {snapshotId : String} {files : List String} {plans : List RootIndexFilePlan}
    (h : inspectFiles entries allowPartial snapshotId files = .ok plans)
    (htotal : totalEntries (files.map (inspectRootIndexFile entries)) ≤ 2 ^ 64) : Spaced plans := by
  rw [inspectFiles] at h
  split at h
  · cases h
  · cases h
    have hzero : (0 : UInt64).toNat = 0 := rfl
    obtain ⟨hfits, hapart⟩ := assignEventBases_bases (files.map (inspectRootIndexFile entries))
      (show (0 : UInt64).toNat + _ ≤ 2 ^ 64 by rw [hzero, Nat.zero_add]; exact htotal)
    refine ⟨fun plan hplan hsome => (hfits plan hplan hsome).2, hapart.imp fun {left right} h => ?_⟩
    by_cases hnone : right.entries.toNat = 0
    · exact .inr hnone
    · exact .inl (h hnone)

/-- Of two plans one is ahead of the other, or they are the same. -/
theorem Spaced.apart_or_eq {plans : List RootIndexFilePlan} (h : Spaced plans)
    {left right : RootIndexFilePlan} (hleft : left ∈ plans) (hright : right ∈ plans) :
    left = right ∨ Apart left right ∨ Apart right left := by
  obtain ⟨i, hi, rfl⟩ := List.getElem_of_mem hleft
  obtain ⟨j, hj, rfl⟩ := List.getElem_of_mem hright
  rcases Nat.lt_trichotomy i j with hlt | rfl | hlt
  · exact .inr (.inl (List.pairwise_iff_getElem.mp h.apart i j hi hj hlt))
  · exact .inl rfl
  · exact .inr (.inr (List.pairwise_iff_getElem.mp h.apart j i hj hi hlt))

/-- Files that are recorded under spaced plans have keys of their own. -/
theorem uniqueEventKeys_of_planned {plans : List RootIndexFilePlan} (hspaced : Spaced plans)
    {checkpoints : List FileCheckpoint}
    (hplanned : ∀ checkpoint ∈ checkpoints, ∃ plan, Planned plans checkpoint plan) :
    UniqueEventKeys (tablesOf checkpoints).files := by
  have hrow : ∀ row ∈ (tablesOf checkpoints).files, ∃ plan ∈ plans, row.rootUri = plan.path ∧
      row.eventBase = plan.eventBase.toNat ∧ row.totalEntries ≤ plan.entries.toNat := by
    intro row hrow
    obtain ⟨checkpoint, hcheckpoint, hrow⟩ := List.mem_flatMap.mp hrow
    rw [metadata_files] at hrow
    obtain ⟨path, -, rfl⟩ := List.mem_map.mp hrow
    obtain ⟨plan, hplan⟩ := hplanned checkpoint hcheckpoint
    exact ⟨plan, hplan.mem, hplan.path.symm, hplan.eventBase, hplan.entries⟩
  have hfits : ∀ row ∈ (tablesOf checkpoints).files, ∀ entry < row.totalEntries,
      row.eventBase + entry < 2 ^ 64 := by
    intro row hmem entry hentry
    obtain ⟨plan, hplan, -, hbase, hentries⟩ := hrow row hmem
    have := hspaced.fits plan hplan (by omega)
    omega
  refine ⟨hfits, fun left hleft right hright i hi j hj hkey => ?_⟩
  have hsum := congrArg UInt64.toNat hkey
  rw [eventFk_toNat (hfits left hleft i hi), eventFk_toNat (hfits right hright j hj)] at hsum
  obtain ⟨planLeft, hplanLeft, huriLeft, hbaseLeft, hentriesLeft⟩ := hrow left hleft
  obtain ⟨planRight, hplanRight, huriRight, hbaseRight, hentriesRight⟩ := hrow right hright
  rcases hspaced.apart_or_eq hplanLeft hplanRight with rfl | (hapart | hnone) | (hapart | hnone)
  · exact ⟨huriLeft.trans huriRight.symm, by omega⟩
  all_goals omega

/-! ### Runs -/

/-- The invariant of directories. -/
def KeepsEventKeys (directory : BuildDirectory) : Prop :=
  ∀ rows, directory.tables.files = some rows → UniqueEventKeys rows

/-- The invariant of runs: whatever is committed or buffered is recorded under the plans. -/
structure RunsInPlan (run : BuildRun) : Prop where
  table : KeepsEventKeys run.directory
  spaced : Spaced run.plans
  unplanned : run.phase = .created ∨ run.phase = .inspecting → run.plans = []
  undrawn : ∀ plan ∈ run.undrawn, plan ∈ run.plans
  segments : ∀ checkpoint ∈ committedFiles run.directory.segments,
    ∃ plan, Planned run.plans checkpoint plan
  buffers : ∀ worker ∈ run.workers, ∀ checkpoint ∈ worker.buffer,
    ∃ plan, Planned run.plans checkpoint plan

/-- The entries of all files together are few enough, and no file has more entries when it is
    indexed than when it was inspected. -/
def EntriesKept (run : BuildRun) : BuildStep → Prop
  | .inspect entries => totalEntries (run.request.files.map (inspectRootIndexFile entries)) ≤ 2 ^ 64
  | .draw _ (some source) =>
      ∀ plan ∈ run.undrawn.head?, source.totalEntries ≤ plan.entries.toNat
  | _ => True

instance (run : BuildRun) : (label : BuildStep) → Decidable (EntriesKept run label)
  | .inspect entries => inferInstanceAs (Decidable (totalEntries
      (run.request.files.map (inspectRootIndexFile entries)) ≤ 2 ^ 64))
  | .draw _ (some source) => inferInstanceAs (Decidable
      (∀ plan ∈ run.undrawn.head?, source.totalEntries ≤ plan.entries.toNat))
  | .draw _ none => inferInstanceAs (Decidable True)
  | .writeRequest | .examine .. | .beginIndexing | .openWriter _ | .flush _ | .retire .. |
      .validate | .compact => inferInstanceAs (Decidable True)

/-- A segment that is added to a directory only adds its own files. -/
theorem mem_committedFiles_append {segments : List SegmentDirectory} {segment : SegmentDirectory}
    {checkpoint : FileCheckpoint} (h : checkpoint ∈ committedFiles (segments ++ [segment])) :
    checkpoint ∈ committedFiles segments ∨
      segment.rejected = false ∧ checkpoint ∈ segment.checkpoints := by
  rw [committedFiles_append, committedFiles_singleton, List.mem_append] at h
  rcases h with h | h
  · exact .inl h
  · cases hrejected : segment.rejected with
    | true =>
      rw [hrejected] at h
      cases h
    | false =>
      rw [hrejected] at h
      exact .inr ⟨rfl, h⟩

/-- The step lemma. -/
theorem RunsInPlan.stepped {run t : BuildRun} {label : BuildStep} (h : RunsInPlan run)
    (hkept : EntriesKept run label) (hstep : BuildRun.Stepped run label t) : RunsInPlan t := by
  cases hstep with
  | writeRequest hphase =>
    exact { h with unplanned := fun _ => h.unplanned (.inl hphase) }
  | inspect hphase hplans =>
    have hnone := h.unplanned (.inr hphase)
    refine ⟨h.table, spaced_of_inspectFiles hplans hkept, fun hopen => ?_, fun _ hplan => hplan,
      fun checkpoint hmem => ?_, fun worker hworker checkpoint hmem => ?_⟩
    · rcases hopen with hopen | hopen <;> cases hopen
    · obtain ⟨plan, hplan⟩ := h.segments checkpoint hmem
      rw [hnone] at hplan
      exact absurd hplan.mem List.not_mem_nil
    · obtain ⟨plan, hplan⟩ := h.buffers worker hworker checkpoint hmem
      rw [hnone] at hplan
      exact absurd hplan.mem List.not_mem_nil
  | @restore index localFiles intact segment hphase hsegment haccepts =>
    refine { h with segments := fun checkpoint hmem => ?_ }
    rcases mem_committedFiles_append hmem with hmem | ⟨-, hmem⟩
    · exact h.segments checkpoint hmem
    · obtain ⟨plan, hplan, hpath, -, -, hbase, hentries⟩ :=
        RestoreContext.plan_of_accepts haccepts hmem
      exact ⟨plan, hplan, hpath, hbase, Nat.le_of_eq hentries⟩
  | quarantine hphase hsegment haccepts =>
    refine { h with segments := fun checkpoint hmem => ?_ }
    rcases mem_committedFiles_append hmem with hmem | ⟨hrejected, -⟩
    · exact h.segments checkpoint hmem
    · cases hrejected
  | beginIndexing hphase hexamined =>
    refine { h with unplanned := fun hopen => ?_ }
    rcases hopen with hopen | hopen <;> cases hopen
  | openWriter hphase =>
    refine { h with buffers := fun worker hworker checkpoint hmem => ?_ }
    rcases List.mem_append.mp hworker with hworker | hworker
    · exact h.buffers worker hworker checkpoint hmem
    · rw [List.mem_singleton.mp hworker] at hmem
      exact absurd hmem List.not_mem_nil
  | pass hphase hundrawn =>
    refine { h with undrawn := fun plan hplan => h.undrawn plan ?_ }
    rw [hundrawn]
    exact List.mem_cons_of_mem _ hplan
  | @index index source worker plan rest hphase hundrawn hworker hfinished herror hpath hpaths =>
    refine { h with
      undrawn := fun other hother => h.undrawn other ?_
      buffers := fun other hother checkpoint hmem => ?_ }
    · rw [hundrawn]
      exact List.mem_cons_of_mem _ hother
    · rcases List.mem_or_eq_of_mem_set hother with hother | rfl
      · exact h.buffers other hother checkpoint hmem
      · rcases List.mem_append.mp hmem with hmem | hmem
        · exact h.buffers worker (List.mem_of_getElem? hworker) checkpoint hmem
        · rw [List.mem_singleton.mp hmem]
          have hplan : plan ∈ run.undrawn := hundrawn ▸ List.mem_cons_self
          exact ⟨plan, h.undrawn plan hplan, rfl, rfl, hkept plan (by rw [hundrawn]; rfl)⟩
  | @flush index worker hphase hworker hfinished =>
    refine { h with segments := fun checkpoint hmem => ?_, buffers := fun other hother => ?_ }
    · rcases mem_committedFiles_append hmem with hmem | ⟨-, hmem⟩
      · exact h.segments checkpoint hmem
      · exact h.buffers worker (List.mem_of_getElem? hworker) checkpoint hmem
    · rcases List.mem_or_eq_of_mem_set hother with hother | rfl
      · exact h.buffers other hother
      · exact fun checkpoint hmem => absurd hmem List.not_mem_nil
  | fail hphase hworker hfinished =>
    refine { h with buffers := fun other hother => ?_ }
    rcases List.mem_or_eq_of_mem_set hother with hother | rfl
    · exact h.buffers other hother
    · exact fun checkpoint hmem => absurd hmem List.not_mem_nil
  | @finish index worker hphase hworker hbuffer =>
    refine { h with buffers := fun other hother => ?_ }
    rcases List.mem_or_eq_of_mem_set hother with hother | rfl
    · exact h.buffers other hother
    · exact h.buffers worker (List.mem_of_getElem? hworker)
  | validate hphase hdone hok =>
    refine { h with unplanned := fun hopen => ?_ }
    rcases hopen with hopen | hopen <;> cases hopen
  | @compact table hphase =>
    refine { h with table := fun rows hrows => ?_, unplanned := fun hopen => ?_ }
    · match table with
      | 0 =>
        rcases Option.or_eq_some_iff.mp hrows with hrows | ⟨-, hrows⟩
        · exact h.table rows hrows
        · cases hrows
          rw [partTables_files]
          exact uniqueEventKeys_of_planned h.spaced h.segments
      | 1 => exact h.table rows hrows
      | 2 => exact h.table rows hrows
      | n + 3 => exact h.table rows hrows
    · dsimp only at hopen
      split at hopen <;> rcases hopen with hopen | hopen <;> cases hopen

theorem carries_eventKeys :
    OutputDirectory.Carries (fun _ => True) EntriesKept KeepsEventKeys RunsInPlan where
  fresh request resume id := by
    refine ⟨fun rows hrows => (by cases hrows), ⟨?_, List.Pairwise.nil⟩, fun _ => rfl, ?_, ?_, ?_⟩
    all_goals exact fun _ hmem => absurd hmem List.not_mem_nil
  resumed request id directory hkeys _ := by
    refine ⟨hkeys, ⟨?_, List.Pairwise.nil⟩, fun _ => rfl, ?_, fun checkpoint hmem => ?_, ?_⟩
    · exact fun _ hmem => absurd hmem List.not_mem_nil
    · exact fun _ hmem => absurd hmem List.not_mem_nil
    · rw [BuildRun.resumed, committedFiles_rejected] at hmem
      exact absurd hmem List.not_mem_nil
    · exact fun _ hmem => absurd hmem List.not_mem_nil
  step run label t h hkept hstep := h.stepped hkept hstep
  onDisk run h := h.table
  remnant directory keep keepTable keepRequest hkeys rows hrows := by
    dsimp only [BuildDirectory.remnant] at hrows
    split at hrows
    · exact hkeys rows hrows
    · cases hrows

/-- **Runs in which no file grows publish unique keys.**  Whatever fails, crashes or is resumed,
    the keys of every files table that is ever compacted are unique and fit. -/
theorem published_event_keys {out : OutputDirectory}
    (h : OutputDirectory.builds.Reached
      (OutputDirectory.Guarded (fun _ => True) EntriesKept) out) :
    (∀ entry ∈ out.entries, KeepsEventKeys entry.2) ∧
      ∀ run, out.run = some run → KeepsEventKeys run.directory := by
  obtain ⟨hentries, hrun⟩ := OutputDirectory.everywhere_of_reached carries_eventKeys h
  exact ⟨hentries, fun run hsome => (hrun run hsome).1⟩

/-! ### Two files -/

/-- A primitive member `x` that every entry of a file has once. -/
def memberX (entries : Nat) : SourceFile where
  totalEntries := entries
  fileSize := 100
  mtimeNs := 7
  paths :=
    [{ logicalPath := "Event.x"
       rootClass := "Event"
       levels :=
         [{ name := "x", type := "Float_t", offsetInParent := 8, isPrimitive := true,
            isString := false, isPointer := false, isContainer := false, fixedArray := none,
            elementSize := 4, klass := none, elementClass := none }]
       baskets :=
         [{ basketId := 0, entryBegin := 0, entryEnd := entries, valueCount := entries }] }]

def twoFiles : BuildRequest where
  datasetId := "d"
  files := ["a.root", "b.root"]
  files_nodup := by decide
  catalogMode := .localFiles
  allowPartial := false
  settings := ""

/-- Inspecting two entries in each file and indexing both with one worker; `a.root` has `entries`
    when it is indexed. -/
def indexTwoFiles (entries : Nat) : List BuildAction :=
  [.step (.inspect fun _ => .ok 2), .step .beginIndexing, .step (.openWriter 0),
    .step (.draw 0 (some (memberX entries))), .step (.draw 0 (some (memberX 2))),
    .step (.flush 0), .step (.retire 0 false), .step .validate,
    .step .compact, .step .compact, .step .compact, .step .compact]

/-- A run in a new directory, from its start to its publication. -/
def publishTwoFiles (id entries : Nat) : List BuildAction :=
  [.start twoFiles false id, .step .writeRequest] ++ indexTwoFiles entries ++
    [.renameStaging false, .writeCurrent]

/-- The files rows of the snapshots. -/
def snapshotFiles (out : OutputDirectory) : List (List RootFileMetadataRow) :=
  out.entries.filterMap fun entry => entry.2.tables.files

theorem not_keepsEventKeys_of_clash {out : OutputDirectory} {rows : List RootFileMetadataRow}
    {left right : RootFileMetadataRow} {i j : Nat} (hrows : rows ∈ snapshotFiles out)
    (hleft : left ∈ rows) (hright : right ∈ rows) (hi : i < left.totalEntries)
    (hj : j < right.totalEntries) (hkey : eventFk left i = eventFk right j)
    (huri : left.rootUri ≠ right.rootUri) : ¬ ∀ entry ∈ out.entries, KeepsEventKeys entry.2 := by
  intro hkeys
  obtain ⟨entry, hentry, hfiles⟩ := List.mem_filterMap.mp hrows
  exact huri ((hkeys entry hentry rows hfiles).unique left hleft right hright i hi j hj hkey).1

/-- `a.root` grows to three entries before it is indexed: its last entry and the first of
    `b.root` have the same key. -/
theorem growing_file_shares_keys :
    ¬ ∀ out, OutputDirectory.builds.Reachable out →
      ∀ entry ∈ out.entries, KeepsEventKeys entry.2 := by
  intro hall
  have hrun : ∃ out, runSteps OutputDirectory.next {} (publishTwoFiles 1 3) = some out ∧
      ∃ left right rest, snapshotFiles out = [left :: right :: rest] ∧
        left.totalEntries = 3 ∧ right.totalEntries = 2 ∧ eventFk left 2 = eventFk right 0 ∧
        left.rootUri ≠ right.rootUri :=
    ⟨_, rfl, _, _, _, rfl, rfl, rfl, by decide +kernel, by decide +kernel⟩
  obtain ⟨out, hrun, left, right, rest, hfiles, hleft, hright, hkey, huri⟩ := hrun
  refine not_keepsEventKeys_of_clash (i := 2) (j := 0) (hfiles ▸ List.mem_singleton_self _)
    List.mem_cons_self (List.mem_cons_of_mem _ List.mem_cons_self) (by omega) (by omega) hkey huri
    (hall out (OutputDirectory.reachable_of_run hrun))

/-- Without growth the run publishes unique keys. -/
theorem published_event_keys_twoFiles :
    ∃ out, runSteps OutputDirectory.next {} (publishTwoFiles 1 2) = some out ∧ out.current = some 1 ∧
      ∀ entry ∈ out.entries, KeepsEventKeys entry.2 := by
  have hrun : ∃ out, runSteps OutputDirectory.next {} (publishTwoFiles 1 2) = some out ∧
      runSteps (guarded (OutputDirectory.Guarded (fun _ => True) EntriesKept)
        OutputDirectory.next) {} (publishTwoFiles 1 2) = some out ∧
      out.current = some 1 := ⟨_, rfl, rfl, rfl⟩
  obtain ⟨out, hrun, hguarded, hcurrent⟩ := hrun
  exact ⟨out, hrun, hcurrent,
    (published_event_keys (OutputDirectory.reached_of_guarded hguarded)).1⟩

end RootLake.Index

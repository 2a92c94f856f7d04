/-
  RootLake/Index/Snapshots.lean
  =============================
  **Published snapshots stay.**

  `FindResumeCandidate` tells a published snapshot from one whose publication was cut short by
  its name: it is taken for unpublished when it is newer than the snapshot `current.json` names.
  That is right as long as the published ids increase.  An older directory that is resumed and
  published after a newer one makes the newer one a candidate.
-/
import RootLake.Index.OutputDirectory
import RootLake.Index.EventKeys

namespace RootLake.Index

open RootLake.Runs

namespace OutputDirectory

theorem has_eq_false {out : OutputDirectory} {location : Location} :
    out.has location = false ↔ ∀ entry ∈ out.entries, entry.1 ≠ location := by
  simp [has]

theorem mem_without {out : OutputDirectory} {location : Location}
    {entry : Location × BuildDirectory} :
    entry ∈ out.without location ↔ entry ∈ out.entries ∧ entry.1 ≠ location := by
  simp [without]

theorem isCandidate_snapshot {out : OutputDirectory} {id : Nat} {directory : BuildDirectory} :
    out.isCandidate (.snapshot id, directory) = true ↔
      ∃ published, out.current = some published ∧ published < id := by
  cases h : out.current <;> simp [isCandidate, h]

/-- A cleanup leaves every directory in its place. -/
theorem exists_mem_cleaned {out : OutputDirectory} {run : BuildRun}
    (keep : SegmentDirectory → Bool) {location : Location} {directory : BuildDirectory}
    (h : (location, directory) ∈ out.entries) :
    ∃ rest, (location, rest) ∈ out.entries.map fun entry =>
      if entry.1 = .snapshot run.snapshotId then
        (entry.1, entry.2.remnant keep (fun _ => true) true)
      else entry := by
  by_cases hlocation : location = .snapshot run.snapshotId
  · exact ⟨_, List.mem_map.mpr ⟨_, h, if_pos hlocation⟩⟩
  · exact ⟨_, List.mem_map.mpr ⟨_, h, if_neg hlocation⟩⟩

/-! ### Published snapshots -/

/-- The claim about a state: every snapshot that `current.json` has named is in its place with the
    tables it had then, and is no candidate of any run. -/
structure SnapshotsKept (out : OutputDirectory) : Prop where
  inPlace : ∀ published ∈ out.referenced, ∃ directory,
    (Location.snapshot published.1, directory) ∈ out.entries
  tables : ∀ published ∈ out.referenced, ∀ directory,
    (Location.snapshot published.1, directory) ∈ out.entries → directory.tables = published.2
  notCandidate : ∀ published ∈ out.referenced, ∀ request found,
    out.findResumeCandidate request = some found → found.1 ≠ .snapshot published.1

/-- What holds between the two renames of `CommitParquetSnapshot` and after them. -/
structure Placed (out : OutputDirectory) (run : BuildRun) : Prop where
  inPlace : ∃ directory, (Location.snapshot run.snapshotId, directory) ∈ out.entries
  tables : ∀ directory, (Location.snapshot run.snapshotId, directory) ∈ out.entries →
    directory.tables = run.directory.tables

/-- The invariant: the snapshots named so far are in place, and none is newer than the last. -/
structure Immutable (out : OutputDirectory) : Prop where
  inPlace : ∀ published ∈ out.referenced, ∃ directory,
    (Location.snapshot published.1, directory) ∈ out.entries
  tables : ∀ published ∈ out.referenced, ∀ directory,
    (Location.snapshot published.1, directory) ∈ out.entries → directory.tables = published.2
  notNewer : ∀ published ∈ out.referenced, ∃ current, out.current = some current ∧
    published.1 ≤ current
  placed : ∀ run, out.run = some run → run.phase = .renamed → out.Placed run

/-- Nothing is overwritten, and `current.json` moves on to newer snapshots only. -/
def PublishesNewer (out : OutputDirectory) : BuildAction → Prop
  | .renameStaging overwrite => overwrite = false
  | .writeCurrent => ∀ run ∈ out.run, ∀ published ∈ out.current, published < run.snapshotId
  | _ => True

instance (out : OutputDirectory) : (action : BuildAction) → Decidable (out.PublishesNewer action)
  | .renameStaging overwrite => inferInstanceAs (Decidable (overwrite = false))
  | .writeCurrent => inferInstanceAs (Decidable
      (∀ run ∈ out.run, ∀ published ∈ out.current, published < run.snapshotId))
  | .start .. | .step _ | .cleanup _ | .publishCatalog | .remove .. | .finish | .fail _ | .crash =>
      inferInstanceAs (Decidable True)

/-- A snapshot that is not newer than the current one is no candidate. -/
theorem Immutable.notCandidate {out : OutputDirectory} (h : out.Immutable)
    {published : Nat × CompactedTables} (hmem : published ∈ out.referenced)
    {request : BuildRequest} {location : Location} {directory : BuildDirectory} {id : Nat}
    (hfound : out.findResumeCandidate request = some (location, directory, id)) :
    location ≠ .snapshot published.1 := by
  rintro rfl
  obtain ⟨current, hcurrent, hle⟩ := h.notNewer published hmem
  obtain ⟨newest, hnewest, hlt⟩ :=
    isCandidate_snapshot.mp (mem_of_findResumeCandidate hfound).2.1
  rw [hcurrent] at hnewest
  cases hnewest
  omega

theorem Immutable.kept {out : OutputDirectory} (h : out.Immutable) : out.SnapshotsKept where
  inPlace := h.inPlace
  tables := h.tables
  notCandidate _ hmem _ _ hfound := h.notCandidate hmem hfound

/-- The step lemma. -/
theorem Immutable.moved {out t : OutputDirectory} {action : BuildAction} (h : out.Immutable)
    (hnewer : out.PublishesNewer action) (hmoved : out.Moved action t) : t.Immutable := by
  cases hmoved with
  | @resume request id recovered location directory hrun hid hfound hplace =>
    refine ⟨fun published hmem => ?_, fun published hmem directory hentry => ?_, h.notNewer,
      fun run hsome hphase => ?_⟩
    · obtain ⟨kept, hkept⟩ := h.inPlace published hmem
      exact ⟨kept, mem_without.mpr ⟨hkept, (h.notCandidate hmem hfound).symm⟩⟩
    · exact h.tables published hmem directory (mem_without.mp hentry).1
    · cases hsome
      cases hphase
  | begin hrun hid hplace =>
    refine ⟨h.inPlace, h.tables, h.notNewer, fun run hsome hphase => ?_⟩
    cases hsome
    cases hphase
  | step hrun hsteps =>
    refine ⟨h.inPlace, h.tables, h.notNewer, fun run hsome hphase => ?_⟩
    cases hsome
    cases hsteps <;> try dsimp only at hphase
    all_goals first
      | cases hphase
      | (simp_all; done)
      | (split at hphase <;> cases hphase)
  | @renameStaging run overwrite hrun hphase hmode hhas =>
    have hfree : ∀ entry ∈ out.entries, entry.1 ≠ .snapshot run.snapshotId := by
      refine has_eq_false.mp (eq_false_of_ne_true fun hexists => ?_)
      rw [hhas hexists] at hnewer
      cases hnewer
    refine ⟨fun published hmem => ?_, fun published hmem directory hentry => ?_, h.notNewer,
      fun other hsome hphase => ?_⟩
    · obtain ⟨kept, hkept⟩ := h.inPlace published hmem
      exact ⟨kept, List.mem_append_left _ (mem_without.mpr ⟨hkept, hfree _ hkept⟩)⟩
    · rcases List.mem_append.mp hentry with hentry | hentry
      · exact h.tables published hmem directory (mem_without.mp hentry).1
      · obtain ⟨kept, hkept⟩ := h.inPlace published hmem
        have hid := Location.snapshot.inj (Prod.mk.inj (List.mem_singleton.mp hentry)).1
        exact absurd (congrArg Location.snapshot hid) (hfree _ hkept)
    · cases hsome
      refine ⟨⟨run.onDisk, List.mem_append_right _ (List.mem_singleton_self _)⟩,
        fun directory hentry => ?_⟩
      rcases List.mem_append.mp hentry with hentry | hentry
      · exact absurd rfl (hfree _ (mem_without.mp hentry).1)
      · rw [(Prod.mk.inj (List.mem_singleton.mp hentry)).2]
        rfl
  | @writeCurrent run hrun hphase =>
    have hplaced := h.placed run hrun hphase
    refine ⟨fun published hmem => ?_, fun published hmem directory hentry => ?_,
      fun published hmem => ⟨_, rfl, ?_⟩, fun other hsome hphase => ?_⟩
    · rcases List.mem_append.mp hmem with hmem | hmem
      · exact h.inPlace published hmem
      · rw [List.mem_singleton.mp hmem]
        exact hplaced.inPlace
    · rcases List.mem_append.mp hmem with hmem | hmem
      · exact h.tables published hmem directory hentry
      · rw [List.mem_singleton.mp hmem] at hentry ⊢
        exact hplaced.tables directory hentry
    · rcases List.mem_append.mp hmem with hmem | hmem
      · obtain ⟨current, hcurrent, hle⟩ := h.notNewer published hmem
        exact hle.trans (Nat.le_of_lt (hnewer run hrun current hcurrent))
      · rw [List.mem_singleton.mp hmem]
    · cases hsome
      cases hphase
  | @cleanup run keep hrun hphase =>
    refine ⟨fun published hmem => ?_, fun published hmem directory hentry => ?_, h.notNewer,
      fun other hsome hrenamed => ?_⟩
    · obtain ⟨kept, hkept⟩ := h.inPlace published hmem
      exact exists_mem_cleaned keep hkept
    · obtain ⟨source, hsource, heq⟩ := List.mem_map.mp hentry
      split at heq
      · obtain ⟨hsnapshot, rfl⟩ := Prod.mk.inj heq
        exact h.tables published hmem source.2 (hsnapshot ▸ hsource)
      · rw [heq] at hsource
        exact h.tables published hmem directory hsource
    · rw [hrun] at hsome
      cases hsome
      rw [hphase] at hrenamed
      cases hrenamed
  | publishCatalog hrun hphase =>
    refine ⟨h.inPlace, h.tables, h.notNewer, fun run hsome hphase => ?_⟩
    cases hsome
    cases hphase
  | remove hrun hphase =>
    refine ⟨h.inPlace, h.tables, h.notNewer, fun run hsome hrenamed => ?_⟩
    cases hsome
    dsimp only at hrenamed
    rw [hphase] at hrenamed
    cases hrenamed
  | finish hrun => exact ⟨h.inPlace, h.tables, h.notNewer, fun run hsome => (by cases hsome)⟩
  | @abandon run action location clock hrun haction hlocation hclock =>
    have hentries : ∀ id directory, (Location.snapshot id, directory) ∈
        (out.abandon run location).entries ↔ (Location.snapshot id, directory) ∈ out.entries := by
      intro id directory
      dsimp only [OutputDirectory.abandon]
      split
      · rw [List.mem_append, List.mem_singleton]
        refine ⟨fun hmem => hmem.resolve_right fun heq => ?_, Or.inl⟩
        rcases hlocation with rfl | rfl <;> cases heq
      · exact Iff.rfl
    refine ⟨fun published hmem => ?_, fun published hmem directory hentry => ?_, h.notNewer,
      fun other hsome => (by cases hsome)⟩
    · obtain ⟨kept, hkept⟩ := h.inPlace published hmem
      exact ⟨kept, (hentries _ _).mpr hkept⟩
    · exact h.tables published hmem directory ((hentries _ _).mp hentry)

/-- **Snapshots published in the order of their ids are immutable.** -/
theorem published_snapshots_kept {out : OutputDirectory} (h : builds.Reached PublishesNewer out) :
    out.SnapshotsKept := by
  refine Immutable.kept (System.Reached.invariant (I := Immutable) ?_
    (fun s action t hs hok hnext => hs.moved hok (moved_of_next hnext)) h)
  rintro out rfl
  exact ⟨fun _ hmem => absurd hmem List.not_mem_nil, fun _ hmem => absurd hmem List.not_mem_nil,
    fun _ hmem => absurd hmem List.not_mem_nil, fun _ hsome => (by cases hsome)⟩

/-! ### An older directory after a newer one -/

/-- A run fails early and is preserved, a second one publishes, a third one resumes the first. -/
def publishOlderAfterNewer : List BuildAction :=
  [.start twoFiles false 1, .step .writeRequest, .fail 2] ++ publishTwoFiles 3 2 ++ [.finish] ++
    [.start twoFiles true 4] ++ indexTwoFiles 2 ++ [.renameStaging false, .writeCurrent, .finish]

/-- `overwrite` is off in all runs. -/
def OverwritesNothing (_ : OutputDirectory) (action : BuildAction) : Prop :=
  match action with
  | .renameStaging overwrite => overwrite = false
  | _ => True

instance (out : OutputDirectory) (action : BuildAction) :
    Decidable (OverwritesNothing out action) := by
  unfold OverwritesNothing
  split <;> infer_instance

/-- With the older snapshot published last, the newer one is a candidate again. -/
theorem older_publication_exposes_newer :
    ¬ ∀ out, builds.Reached OverwritesNothing out → out.SnapshotsKept := by
  intro hall
  have hrun : ∃ out, runSteps (guarded OverwritesNothing next) {} publishOlderAfterNewer = some out ∧
      ∃ newer older directory, out.referenced = [newer, older] ∧ newer.1 = 3 ∧
        out.findResumeCandidate twoFiles = some (.snapshot 3, directory, 3) :=
    ⟨_, rfl, _, _, _, rfl, rfl, rfl⟩
  obtain ⟨out, hrun, newer, older, directory, hreferenced, hid, hfound⟩ := hrun
  refine (hall out (reached_of_guarded hrun)).notCandidate newer
    (hreferenced ▸ List.mem_cons_self) twoFiles _ hfound ?_
  rw [hid]

/-- Two runs that publish one after the other. -/
theorem published_snapshots_kept_twice :
    ∃ out, runSteps next {} (publishTwoFiles 1 2 ++ [.finish] ++ publishTwoFiles 2 2) = some out ∧
      out.referenced.map Prod.fst = [1, 2] ∧ out.SnapshotsKept := by
  have hrun : ∃ out, runSteps next {}
        (publishTwoFiles 1 2 ++ [.finish] ++ publishTwoFiles 2 2) = some out ∧
      runSteps (guarded PublishesNewer next) {}
        (publishTwoFiles 1 2 ++ [.finish] ++ publishTwoFiles 2 2) = some out ∧
      out.referenced.map Prod.fst = [1, 2] := ⟨_, rfl, rfl, rfl⟩
  obtain ⟨out, hrun, hguarded, hids⟩ := hrun
  exact ⟨out, hrun, hids, published_snapshots_kept (reached_of_guarded hguarded)⟩

end OutputDirectory

end RootLake.Index

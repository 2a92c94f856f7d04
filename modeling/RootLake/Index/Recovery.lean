/-
  RootLake/Index/Recovery.lean
  ============================
  **Completed directories are found.**

  A commit renames the staging directory into `snapshots` and then writes `current.json`.  The
  next run looks for a directory with its request in the order of the paths and takes the last
  one.  It misses a completed staging directory when a preserved one has the same request, and a
  renamed one when nothing has been published before or something newer has.
-/
import RootLake.Index.Snapshots
import RootLake.Lib.Query

namespace RootLake.Index

open RootLake.Runs RootLake.Query

namespace OutputDirectory

/-! ### Names -/

/-- The snapshot id in the name of a directory. -/
def Location.id : Location → Nat
  | .staging id | .failed id _ | .snapshot id => id

/-- The invariant of names: an id is the name of one directory, in its place or in the hands of
    the run, and is the one in its request. -/
structure Located (out : OutputDirectory) : Prop where
  nodup : (out.entries.map fun entry => Location.id entry.1).Nodup
  clock : ∀ entry ∈ out.entries, Location.id entry.1 ≤ out.clock
  named : ∀ entry ∈ out.entries, ∀ request id, entry.2.request = some (request, id) →
    id = Location.id entry.1
  current : ∀ published, out.current = some published → ∃ directory,
    (Location.snapshot published, directory) ∈ out.entries
  runClock : ∀ run, out.run = some run → run.snapshotId ≤ out.clock
  own : ∀ run, out.run = some run → run.phase.ownsStaging = true →
    ∀ entry ∈ out.entries, Location.id entry.1 ≠ run.snapshotId
  runNamed : ∀ run, out.run = some run → ∀ request id,
    run.directory.request = some (request, id) → id = run.snapshotId
  request : ∀ run, out.run = some run → run.phase ≠ .created → run.phase ≠ .removing →
    run.directory.request = some (run.request, run.snapshotId)
  placed : ∀ run, out.run = some run → run.phase = .renamed →
    out.current ≠ some run.snapshotId ∧
      (Location.snapshot run.snapshotId, run.onDisk) ∈ out.entries
  referenced : ∀ run, out.run = some run → run.phase = .referenced →
    out.current = some run.snapshotId

/-- A step keeps the run's request and id, and the request of its directory once it is written. -/
theorem stepped_request {run t : BuildRun} {label : BuildStep}
    (h : BuildRun.Stepped run label t) :
    t.request = run.request ∧ t.snapshotId = run.snapshotId ∧ run.phase.ownsStaging = true ∧
      t.phase.ownsStaging = true ∧
      (t.directory.request = some (run.request, run.snapshotId) ∨
        run.phase ≠ .created ∧ run.phase ≠ .removing ∧
          t.directory.request = run.directory.request) := by
  cases h with
  | writeRequest hphase =>
    simp [BuildPhase.ownsStaging, hphase]
  | @compact table hphase =>
    dsimp only
    by_cases hlast : table = 3 <;> simp [BuildPhase.ownsStaging, hphase, hlast]
  | _ => simp_all [BuildPhase.ownsStaging]

/-- Two directories with one id are the same. -/
theorem Located.eq_of_id {out : OutputDirectory} (h : out.Located)
    {left right : Location × BuildDirectory} (hleft : left ∈ out.entries)
    (hright : right ∈ out.entries) (hid : Location.id left.1 = Location.id right.1) :
    left = right :=
  List.inj_on_of_nodup_map h.nodup hleft hright hid

theorem Located.moved {out t : OutputDirectory} {action : BuildAction} (h : out.Located)
    (hmoved : out.Moved action t) : t.Located := by
  cases hmoved with
  | @resume request id recovered location directory hrun hid hfound hplace =>
    obtain ⟨hentry, hcandidate, hrequest⟩ := mem_of_findResumeCandidate hfound
    have hrecovered : recovered = Location.id location := h.named _ hentry request recovered hrequest
    refine ⟨?_, fun entry hmem => ?_, fun entry hmem => ?_, fun published hpublished => ?_,
      fun run hsome => ?_, fun run hsome _ entry hmem heq => ?_, fun run hsome => ?_,
      fun run hsome _ _ => ?_, fun run hsome hphase => ?_, fun run hsome hphase => ?_⟩
    · exact h.nodup.sublist (List.Sublist.map _ List.filter_sublist)
    · exact Nat.le_of_lt (Nat.lt_of_le_of_lt (h.clock entry (mem_without.mp hmem).1) hid)
    · exact h.named entry (mem_without.mp hmem).1
    · obtain ⟨kept, hkept⟩ := h.current published hpublished
      refine ⟨kept, mem_without.mpr ⟨hkept, ?_⟩⟩
      rintro rfl
      obtain ⟨newest, hnewest, hlt⟩ := isCandidate_snapshot.mp hcandidate
      rw [hpublished] at hnewest
      cases hnewest
      exact absurd hlt (Nat.lt_irrefl _)
    · cases hsome
      exact hrecovered ▸ Nat.le_of_lt (Nat.lt_of_le_of_lt (h.clock _ hentry) hid)
    · cases hsome
      obtain ⟨hmem, hother⟩ := mem_without.mp hmem
      exact hother (congrArg Prod.fst (h.eq_of_id hmem hentry (heq.trans hrecovered)))
    · cases hsome
      exact fun request id hnamed => (h.named _ hentry request id hnamed).trans hrecovered.symm
    · cases hsome
      exact hrequest
    · cases hsome
      cases hphase
    · cases hsome
      cases hphase
  | begin hrun hid hplace =>
    refine ⟨h.nodup, fun entry hmem => (h.clock entry hmem).trans (Nat.le_of_lt hid), h.named,
      h.current, fun run hsome => ?_, fun run hsome _ entry hmem heq => ?_, fun run hsome => ?_,
      fun run hsome hphase => ?_, fun run hsome hphase => ?_, fun run hsome hphase => ?_⟩
    · cases hsome
      exact Nat.le_refl _
    · cases hsome
      exact absurd (h.clock entry hmem) (Nat.not_le_of_lt (heq ▸ hid))
    · cases hsome
      exact fun request id hnamed => (by cases hnamed)
    · cases hsome
      exact absurd rfl hphase
    · cases hsome
      cases hphase
    · cases hsome
      cases hphase
  | @step run t label hrun hsteps =>
    obtain ⟨hrequest, hid, howns, hphase, hwritten⟩ := stepped_request hsteps
    refine ⟨h.nodup, h.clock, h.named, h.current, fun other hsome => ?_, fun other hsome _ => ?_,
      fun other hsome => ?_, fun other hsome _ _ => ?_, fun other hsome hrenamed => ?_,
      fun other hsome hreferenced => ?_⟩
    · cases hsome
      rw [hid]
      exact h.runClock run hrun
    · cases hsome
      rw [hid]
      exact h.own run hrun howns
    · cases hsome
      intro request id hnamed
      rw [hid]
      rcases hwritten with hwritten | ⟨-, -, hwritten⟩
      · rw [hwritten] at hnamed
        cases hnamed
        rfl
      · rw [hwritten] at hnamed
        exact h.runNamed run hrun request id hnamed
    · cases hsome
      rw [hrequest, hid]
      rcases hwritten with hwritten | ⟨hcreated, hremoving, hwritten⟩
      · exact hwritten
      · rw [hwritten]
        exact h.request run hrun hcreated hremoving
    · cases hsome
      rw [hrenamed] at hphase
      cases hphase
    · cases hsome
      rw [hreferenced] at hphase
      cases hphase
  | @renameStaging run overwrite hrun hphase hmode hhas =>
    have hrequest := h.request run hrun (by rw [hphase]; decide) (by rw [hphase]; decide)
    have hown := h.own run hrun (by rw [hphase]; rfl)
    refine ⟨?_, fun entry hmem => ?_, fun entry hmem => ?_, fun published hpublished => ?_,
      fun other hsome => ?_, fun other hsome howns => ?_, fun other hsome => ?_,
      fun other hsome _ _ => ?_, fun other hsome _ => ⟨?_, ?_⟩, fun other hsome hphase => ?_⟩
    · rw [List.map_append, List.nodup_append]
      refine ⟨h.nodup.sublist (List.Sublist.map _ List.filter_sublist), List.nodup_singleton _, ?_⟩
      rintro _ hmem _ hsingle rfl
      obtain ⟨entry, hentry, hid⟩ := List.mem_map.mp hmem
      rw [List.map_singleton, List.mem_singleton] at hsingle
      exact hown entry (mem_without.mp hentry).1 (hid.trans hsingle)
    · rcases List.mem_append.mp hmem with hmem | hmem
      · exact h.clock entry (mem_without.mp hmem).1
      · rw [List.mem_singleton.mp hmem]
        exact h.runClock run hrun
    · rcases List.mem_append.mp hmem with hmem | hmem
      · exact h.named entry (mem_without.mp hmem).1
      · rw [List.mem_singleton.mp hmem]
        exact h.runNamed run hrun
    · obtain ⟨kept, hkept⟩ := h.current published hpublished
      refine ⟨kept, List.mem_append_left _ (mem_without.mpr ⟨hkept, fun heq => ?_⟩)⟩
      exact hown _ hkept (congrArg Location.id heq)
    · cases hsome
      exact h.runClock run hrun
    · cases hsome
      cases howns
    · cases hsome
      exact h.runNamed run hrun
    · cases hsome
      exact hrequest
    · cases hsome
      intro hcurrent
      obtain ⟨kept, hkept⟩ := h.current _ hcurrent
      exact hown _ hkept rfl
    · cases hsome
      exact List.mem_append_right _ (List.mem_singleton_self _)
    · cases hsome
      cases hphase
  | @writeCurrent run hrun hphase =>
    have hrequest := h.request run hrun (by rw [hphase]; decide) (by rw [hphase]; decide)
    refine ⟨h.nodup, h.clock, h.named, fun published hpublished => ?_, fun other hsome => ?_,
      fun other hsome howns => ?_, fun other hsome => ?_, fun other hsome _ _ => ?_,
      fun other hsome hphase => ?_, fun other hsome _ => ?_⟩
    · cases hpublished
      exact ⟨_, (h.placed run hrun hphase).2⟩
    · cases hsome
      exact h.runClock run hrun
    · cases hsome
      cases howns
    · cases hsome
      exact h.runNamed run hrun
    · cases hsome
      exact hrequest
    · cases hsome
      cases hphase
    · cases hsome
      rfl
  | @cleanup run keep hrun hphase =>
    have hlocation : ∀ entry : Location × BuildDirectory,
        (if entry.1 = .snapshot run.snapshotId then
          (entry.1, entry.2.remnant keep (fun _ => true) true) else entry).1 = entry.1 := by
      intro entry
      split <;> rfl
    refine ⟨?_, fun entry hmem => ?_, fun entry hmem => ?_, fun published hpublished => ?_,
      h.runClock, fun other hsome howns => ?_, h.runNamed, h.request,
      fun other hsome hrenamed => ?_, h.referenced⟩
    · rw [List.map_map]
      have heq : ((fun entry : Location × BuildDirectory => Location.id entry.1) ∘ fun entry =>
          if entry.1 = .snapshot run.snapshotId then
            (entry.1, entry.2.remnant keep (fun _ => true) true) else entry) =
          fun entry => Location.id entry.1 :=
        funext fun entry => congrArg Location.id (hlocation entry)
      rw [heq]
      exact h.nodup
    · obtain ⟨source, hsource, rfl⟩ := List.mem_map.mp hmem
      rw [hlocation]
      exact h.clock source hsource
    · obtain ⟨source, hsource, rfl⟩ := List.mem_map.mp hmem
      rw [hlocation]
      split
      · exact h.named source hsource
      · exact h.named source hsource
    · obtain ⟨kept, hkept⟩ := h.current published hpublished
      exact exists_mem_cleaned keep hkept
    · rw [hrun] at hsome
      cases hsome
      rw [hphase] at howns
      cases howns
    · rw [hrun] at hsome
      cases hsome
      rw [hphase] at hrenamed
      cases hrenamed
  | @publishCatalog run hrun hphase =>
    refine ⟨h.nodup, h.clock, h.named, h.current, fun other hsome => ?_, fun other hsome _ => ?_,
      fun other hsome => ?_, fun other hsome _ hremoving => ?_, fun other hsome hrenamed => ?_,
      fun other hsome hreferenced => ?_⟩
    · cases hsome
      exact h.runClock run hrun
    · cases hsome
      exact h.own run hrun (by rw [hphase]; rfl)
    · cases hsome
      exact h.runNamed run hrun
    · cases hsome
      exact absurd rfl hremoving
    · cases hsome
      cases hrenamed
    · cases hsome
      cases hreferenced
  | @remove run keep keepTable keepRequest hrun hphase =>
    refine ⟨h.nodup, h.clock, h.named, h.current, fun other hsome => ?_, fun other hsome _ => ?_,
      fun other hsome request id hnamed => ?_, fun other hsome _ hremoving => ?_,
      fun other hsome hrenamed => ?_, fun other hsome hreferenced => ?_⟩
    · cases hsome
      exact h.runClock run hrun
    · cases hsome
      exact h.own run hrun (by rw [hphase]; rfl)
    · cases hsome
      dsimp only [BuildDirectory.remnant] at hnamed
      split at hnamed
      · exact h.runNamed run hrun request id hnamed
      · cases hnamed
    · cases hsome
      exact absurd hphase hremoving
    · cases hsome
      exact absurd (hphase.symm.trans hrenamed) (by decide)
    · cases hsome
      exact absurd (hphase.symm.trans hreferenced) (by decide)
  | finish hrun =>
    refine ⟨h.nodup, h.clock, h.named, h.current, ?_, ?_, ?_, ?_, ?_, ?_⟩
    all_goals exact fun run hsome => (by cases hsome)
  | @abandon run action location clock hrun haction hlocation hclock =>
    have hid : Location.id location = run.snapshotId := by
      rcases hlocation with rfl | rfl <;> rfl
    refine ⟨?_, fun entry hmem => ?_, fun entry hmem => ?_, fun published hpublished => ?_,
      ?_, ?_, ?_, ?_, ?_, ?_⟩
    · dsimp only [OutputDirectory.abandon]
      split
      · rename_i howns
        rw [List.map_append, List.nodup_append]
        refine ⟨h.nodup, List.nodup_singleton _, ?_⟩
        rintro _ hmem _ hsingle rfl
        obtain ⟨entry, hentry, hother⟩ := List.mem_map.mp hmem
        rw [List.map_singleton, List.mem_singleton] at hsingle
        exact h.own run hrun howns entry hentry ((hother.trans hsingle).trans hid)
      · exact h.nodup
    · dsimp only [OutputDirectory.abandon] at hmem
      refine Nat.le_trans ?_ hclock
      split at hmem
      · rcases List.mem_append.mp hmem with hmem | hmem
        · exact h.clock entry hmem
        · rw [List.mem_singleton.mp hmem]
          exact hid ▸ h.runClock run hrun
      · exact h.clock entry hmem
    · dsimp only [OutputDirectory.abandon] at hmem
      split at hmem
      · rcases List.mem_append.mp hmem with hmem | hmem
        · exact h.named entry hmem
        · rw [List.mem_singleton.mp hmem]
          exact fun request id hnamed => (h.runNamed run hrun request id hnamed).trans hid.symm
      · exact h.named entry hmem
    · obtain ⟨kept, hkept⟩ := h.current published hpublished
      refine ⟨kept, ?_⟩
      dsimp only [OutputDirectory.abandon]
      split
      · exact List.mem_append_left _ hkept
      · exact hkept
    all_goals exact fun run hsome => (by cases hsome)

theorem located_of_reachable {out : OutputDirectory} (h : builds.Reachable out) : out.Located := by
  refine System.Reachable.invariant (I := Located) h ?_
    (fun s action t hs hnext => hs.moved (moved_of_next hnext))
  rintro out rfl
  refine ⟨List.nodup_nil, ?_, ?_, ?_, ?_, ?_, ?_, ?_, ?_, ?_⟩
  · exact fun _ hmem => absurd hmem List.not_mem_nil
  · exact fun _ hmem => absurd hmem List.not_mem_nil
  all_goals exact fun _ hsome => (by cases hsome)

/-! ### The order of the paths -/

theorem key_staging_lt {left right : Nat} :
    (Location.staging left).key < (Location.staging right).key ↔ left < right := by
  simp [Location.key, Prod.Lex.toLex_lt_toLex]

theorem key_snapshot_lt {left right : Nat} :
    (Location.snapshot left).key < (Location.snapshot right).key ↔ left < right := by
  simp [Location.key, Prod.Lex.toLex_lt_toLex]

/-- A staging directory sorts before all preserved ones and all snapshots. -/
theorem not_key_lt_staging {location : Location} {id : Nat}
    (h : ∀ other, location ≠ .staging other) : ¬ location.key < (Location.staging id).key := by
  cases location with
  | staging other => exact absurd rfl (h other)
  | failed other stamp => simp [Location.key, Prod.Lex.toLex_lt_toLex]
  | snapshot other => simp [Location.key, Prod.Lex.toLex_lt_toLex]

/-- A snapshot sorts behind all other directories. -/
theorem key_lt_snapshot {location : Location} {id : Nat}
    (h : ∀ other, location ≠ .snapshot other) : location.key < (Location.snapshot id).key := by
  cases location with
  | staging other => simp [Location.key, Prod.Lex.toLex_lt_toLex]
  | failed other stamp => simp [Location.key, Prod.Lex.toLex_lt_toLex]
  | snapshot other => exact absurd rfl (h other)

/-! ### The candidate of the next run -/

/-- Where `CommitParquetSnapshot` has the directory of a run. -/
def commitLocation (run : BuildRun) : Location :=
  if run.phase = .publishing then .staging run.snapshotId else .snapshot run.snapshotId

/-- What the claim asks for after a crash: the completed directory is the candidate of the next
    run with this request, or `current.json` names it. -/
def Found (out : OutputDirectory) (run : BuildRun) : Prop :=
  out.current = some run.snapshotId ∨ ∃ directory, directory.tables = run.directory.tables ∧
    out.findResumeCandidate run.request = some (commitLocation run, directory, run.snapshotId)

/-- The condition on the output directory while a run commits: before the first rename no other
    directory with its request has a path that sorts behind, between the renames an older snapshot
    has been published, and no newer one with its request is there. -/
def Recoverable (out : OutputDirectory) (run : BuildRun) : Prop :=
  match run.phase with
  | .publishing =>
      ∀ location directory id, (location, directory) ∈ out.entries →
        directory.request = some (run.request, id) →
        match location with
        | .staging other => other < run.snapshotId
        | .failed _ _ => False
        | .snapshot other => ∀ published ∈ out.current, other ≤ published
  | .renamed =>
      (∃ published ∈ out.current, published < run.snapshotId) ∧
        ∀ other directory id, (Location.snapshot other, directory) ∈ out.entries →
          directory.request = some (run.request, id) → other ≤ run.snapshotId
  | _ => True

theorem candidates_sorted (out : OutputDirectory) :
    out.candidates.Pairwise fun left right => right.1.key ≤ left.1.key :=
  List.pairwise_insertionSort (fun left right : Location × BuildDirectory =>
    right.1.key ≤ left.1.key) _

theorem mem_candidates {out : OutputDirectory} {entry : Location × BuildDirectory} :
    entry ∈ out.candidates ↔ entry ∈ out.entries ∧ out.isCandidate entry = true := by
  rw [candidates, List.mem_insertionSort, List.mem_filter]

theorem isSome_match_iff {request : BuildRequest} {entry : Location × BuildDirectory} :
    ((readMatchingRequest request entry).map fun id => (entry.1, entry.2, id)).isSome ↔
      ∃ id, entry.2.request = some (request, id) := by
  rw [Option.isSome_map, readMatchingRequest]
  split
  · rename_i hnone
    simp [hnone]
  · rename_i found id hsome
    rw [hsome]
    split
    · rename_i heq
      simp [heq]
    · rename_i hne
      simp [hne]

/-- A directory with the request is the candidate when it is one and every other one with the
    request sorts before it. -/
theorem findResumeCandidate_iff {out : OutputDirectory} {request : BuildRequest}
    {location : Location} {directory : BuildDirectory} {id : Nat}
    (hmem : (location, directory) ∈ out.entries)
    (honly : ∀ other, (location, other) ∈ out.entries → other = directory)
    (hrequest : directory.request = some (request, id)) :
    out.findResumeCandidate request = some (location, directory, id) ↔
      out.isCandidate (location, directory) = true ∧
        ∀ other otherDirectory otherId, (other, otherDirectory) ∈ out.entries →
          otherDirectory.request = some (request, otherId) → other ≠ location →
          out.isCandidate (other, otherDirectory) = true → other.key < location.key := by
  have hvalue : (readMatchingRequest request (location, directory)).map
      (fun id => (location, directory, id)) = some (location, directory, id) := by
    simp [readMatchingRequest, hrequest]
  constructor
  · intro hfound
    refine ⟨(mem_of_findResumeCandidate hfound).2.1, ?_⟩
    intro other otherDirectory otherId hother hmatch hne hcandidate
    obtain ⟨first, hfirst, hfirstValue, hgreatest⟩ :=
      key_le_of_findSome? (candidates_sorted out) hfound
    obtain ⟨found, -, hpair⟩ := Option.map_eq_some_iff.mp hfirstValue
    have hle := hgreatest (other, otherDirectory) (mem_candidates.mpr ⟨hother, hcandidate⟩)
      (isSome_match_iff.mpr ⟨otherId, hmatch⟩)
    rw [(Prod.mk.inj hpair).1] at hle
    exact lt_of_le_of_ne hle fun heq => hne (Location.key_injective heq)
  · rintro ⟨hcandidate, hgreatest⟩
    refine findSome?_eq_of_greatest (candidates_sorted out)
      (mem_candidates.mpr ⟨hmem, hcandidate⟩) hvalue ?_
    rintro ⟨other, otherDirectory⟩ hother hmatch hne
    obtain ⟨hother, hotherCandidate⟩ := mem_candidates.mp hother
    obtain ⟨otherId, hotherRequest⟩ := isSome_match_iff.mp hmatch
    refine hgreatest other otherDirectory otherId hother hotherRequest ?_ hotherCandidate
    rintro rfl
    exact hne (by rw [honly otherDirectory hother])

/-- The run is inside `CommitParquetSnapshot`. -/
def Committing (run : BuildRun) : Prop :=
  run.phase = .publishing ∧ run.request.catalogMode.commitsSnapshot = true ∨
    run.phase = .renamed ∨ run.phase = .referenced

/-- The claim's two ways come down to the candidate while `current.json` names another snapshot. -/
theorem found_iff_candidate {t : OutputDirectory} {run : BuildRun}
    (hcurrent : t.current ≠ some run.snapshotId)
    (honly : ∀ directory, (commitLocation run, directory) ∈ t.entries → directory = run.onDisk) :
    t.Found run ↔
      t.findResumeCandidate run.request = some (commitLocation run, run.onDisk, run.snapshotId) := by
  constructor
  · rintro (hnamed | ⟨directory, -, hfound⟩)
    · exact absurd hnamed hcurrent
    · rw [← honly directory (mem_of_findResumeCandidate hfound).1]
      exact hfound
  · exact fun hfound => .inr ⟨run.onDisk, rfl, hfound⟩

/-- Before the first rename. -/
theorem found_iff_of_publishing {out : OutputDirectory} {run : BuildRun} (h : out.Located)
    (hrun : out.run = some run) (hphase : run.phase = .publishing) :
    (out.abandon run (.staging run.snapshotId)).Found run ↔ out.Recoverable run := by
  have howns : run.phase.ownsStaging = true := by rw [hphase]; rfl
  have hown := h.own run hrun howns
  have hrequest := h.request run hrun (by rw [hphase]; decide) (by rw [hphase]; decide)
  have hplace : commitLocation run = .staging run.snapshotId := if_pos hphase
  have hentries : (out.abandon run (.staging run.snapshotId)).entries =
      out.entries ++ [(.staging run.snapshotId, run.onDisk)] := if_pos howns
  have hcurrent : out.current ≠ some run.snapshotId := by
    intro hcurrent
    obtain ⟨kept, hkept⟩ := h.current _ hcurrent
    exact hown _ hkept rfl
  have hmem : (Location.staging run.snapshotId, run.onDisk) ∈
      (out.abandon run (.staging run.snapshotId)).entries := by
    rw [hentries]
    exact List.mem_append_right _ (List.mem_singleton_self _)
  have honly : ∀ directory, (Location.staging run.snapshotId, directory) ∈
      (out.abandon run (.staging run.snapshotId)).entries → directory = run.onDisk := by
    intro directory hmem
    rw [hentries] at hmem
    rcases List.mem_append.mp hmem with hmem | hmem
    · exact absurd rfl (hown _ hmem)
    · exact (Prod.mk.inj (List.mem_singleton.mp hmem)).2
  rw [found_iff_candidate (t := out.abandon run _) hcurrent (hplace ▸ honly), hplace,
    findResumeCandidate_iff hmem honly hrequest, Recoverable, hphase]
  constructor
  · rintro ⟨-, hgreatest⟩ location directory id hentry hmatch
    have hne : location ≠ .staging run.snapshotId := fun heq =>
      hown _ hentry (congrArg Location.id heq)
    have hlater := hgreatest location directory id
      (hentries ▸ List.mem_append_left _ hentry) hmatch hne
    cases location with
    | staging other => exact key_staging_lt.mp (hlater rfl)
    | failed other stamp => exact not_key_lt_staging (fun _ heq => (by cases heq)) (hlater rfl)
    | snapshot other =>
      intro published hpublished
      by_contra hnewer
      refine not_key_lt_staging (fun _ heq => (by cases heq)) (hlater ?_)
      exact isCandidate_snapshot.mpr ⟨published, hpublished, Nat.lt_of_not_le hnewer⟩
  · intro hothers
    refine ⟨rfl, fun location directory id hentry hmatch hne hcandidate => ?_⟩
    rw [hentries] at hentry
    rcases List.mem_append.mp hentry with hentry | hentry
    · have hother := hothers location directory id hentry hmatch
      cases location with
      | staging other => exact key_staging_lt.mpr hother
      | failed other stamp => exact hother.elim
      | snapshot other =>
        obtain ⟨published, hpublished, hlt⟩ := isCandidate_snapshot.mp hcandidate
        exact absurd (hother published hpublished) (Nat.not_le_of_lt hlt)
    · exact absurd (Prod.mk.inj (List.mem_singleton.mp hentry)).1 hne

/-- Between the renames. -/
theorem found_iff_of_renamed {out : OutputDirectory} {run : BuildRun} (h : out.Located)
    (hrun : out.run = some run) (hphase : run.phase = .renamed) :
    (out.abandon run (.staging run.snapshotId)).Found run ↔ out.Recoverable run := by
  obtain ⟨hcurrent, hplaced⟩ := h.placed run hrun hphase
  have hrequest := h.request run hrun (by rw [hphase]; decide) (by rw [hphase]; decide)
  have hplace : commitLocation run = .snapshot run.snapshotId :=
    if_neg (by rw [hphase]; decide)
  have hentries : (out.abandon run (.staging run.snapshotId)).entries = out.entries :=
    if_neg (by rw [hphase]; decide)
  have hmem := hentries.symm ▸ hplaced
  have honly : ∀ directory, (Location.snapshot run.snapshotId, directory) ∈
      (out.abandon run (.staging run.snapshotId)).entries → directory = run.onDisk := by
    intro directory hmem
    rw [hentries] at hmem
    exact congrArg Prod.snd (h.eq_of_id hmem hplaced rfl)
  rw [found_iff_candidate (t := out.abandon run _) hcurrent (hplace ▸ honly), hplace,
    findResumeCandidate_iff hmem honly hrequest, Recoverable, hphase]
  constructor
  · rintro ⟨hcandidate, hgreatest⟩
    obtain ⟨published, hpublished, hlt⟩ := isCandidate_snapshot.mp hcandidate
    refine ⟨⟨published, hpublished, hlt⟩, fun other directory id hentry hmatch => ?_⟩
    by_contra hnewer
    have hlater := hgreatest (.snapshot other) directory id (hentries.symm ▸ hentry) hmatch
      (fun heq => hnewer (Nat.le_of_eq (Location.snapshot.inj heq)))
      (isCandidate_snapshot.mpr ⟨published, hpublished, hlt.trans (Nat.lt_of_not_le hnewer)⟩)
    exact hnewer (Nat.le_of_lt (key_snapshot_lt.mp hlater))
  · rintro ⟨⟨published, hpublished, hlt⟩, hothers⟩
    refine ⟨isCandidate_snapshot.mpr ⟨published, hpublished, hlt⟩, ?_⟩
    intro location directory id hentry hmatch hne _
    rw [hentries] at hentry
    by_cases hsnapshot : ∃ other, location = .snapshot other
    · obtain ⟨other, rfl⟩ := hsnapshot
      refine key_snapshot_lt.mpr (Nat.lt_of_le_of_ne (hothers other directory id hentry hmatch) ?_)
      rintro rfl
      exact hne rfl
    · exact key_lt_snapshot fun other heq => hsnapshot ⟨other, heq⟩

/-- **When a crash in `CommitParquetSnapshot` leaves a directory that is found again.** -/
theorem completed_directory_found_iff {out t : OutputDirectory} {run : BuildRun}
    (h : builds.Reachable out) (hrun : out.run = some run) (hcommitting : Committing run)
    (hcrash : out.next .crash = some t) : t.Found run ↔ out.Recoverable run := by
  have hlocated := located_of_reachable h
  obtain ⟨other, hother, rfl⟩ := Option.map_eq_some_iff.mp hcrash
  rw [hrun] at hother
  cases hother
  rcases hcommitting with ⟨hphase, -⟩ | hphase | hphase
  · exact found_iff_of_publishing hlocated hrun hphase
  · exact found_iff_of_renamed hlocated hrun hphase
  · rw [Recoverable, hphase]
    exact iff_of_true (.inl (hlocated.referenced run hrun hphase)) trivial

/-! ### A crash between the renames -/

/-- A run in a new directory, up to the first rename of its commit. -/
def renameTwoFiles (id : Nat) : List BuildAction :=
  [.start twoFiles false id, .step .writeRequest] ++ indexTwoFiles 2 ++ [.renameStaging false]

/-- Before anything has been published no snapshot is a candidate: the first one is lost when its
    run is killed between the renames. -/
theorem first_snapshot_is_stranded :
    ¬ ∀ out t run, builds.Reachable out → out.run = some run → Committing run →
      out.next .crash = some t → t.Found run := by
  intro hall
  have hrun : ∃ out run t, runSteps next {} (renameTwoFiles 1) = some out ∧ out.run = some run ∧
      run.phase = .renamed ∧ out.next .crash = some t ∧ t.current = none ∧
      t.findResumeCandidate run.request = none :=
    ⟨_, _, _, rfl, rfl, rfl, rfl, rfl, rfl⟩
  obtain ⟨out, run, t, hrun, hsome, hphase, hcrash, hcurrent, hnone⟩ := hrun
  rcases hall out t run (reachable_of_run hrun) hsome (.inr (.inl hphase)) hcrash with
    hnamed | ⟨directory, -, hfound⟩
  · rw [hcurrent] at hnamed
    cases hnamed
  · rw [hnone] at hfound
    cases hfound

/-- After a first publication a second run that is killed there is found again. -/
theorem second_snapshot_is_found :
    ∃ out run t, runSteps next {} (publishTwoFiles 1 2 ++ [.finish] ++ renameTwoFiles 2) = some out ∧
      out.run = some run ∧ run.phase = .renamed ∧ out.next .crash = some t ∧ t.Found run := by
  have hrun : ∃ out run t,
      runSteps next {} (publishTwoFiles 1 2 ++ [.finish] ++ renameTwoFiles 2) = some out ∧
      out.run = some run ∧ run.phase = .renamed ∧ run.snapshotId = 2 ∧
      out.next .crash = some t ∧ out.current = some 1 ∧
      out.entries.map Prod.fst = [.snapshot 1, .snapshot 2] :=
    ⟨_, _, _, rfl, rfl, rfl, rfl, rfl, rfl, rfl⟩
  obtain ⟨out, run, t, hrun, hsome, hphase, hid, hcrash, hcurrent, hplaces⟩ := hrun
  refine ⟨out, run, t, hrun, hsome, hphase, hcrash, ?_⟩
  refine (completed_directory_found_iff (reachable_of_run hrun) hsome (.inr (.inl hphase))
    hcrash).mpr ?_
  rw [Recoverable, hphase]
  refine ⟨⟨1, hcurrent, by rw [hid]; decide⟩, fun other directory id hentry _ => ?_⟩
  have hplace := List.mem_map_of_mem (f := Prod.fst) hentry
  simp only [hplaces, List.mem_cons, Location.snapshot.injEq, List.not_mem_nil, or_false] at hplace
  omega

end OutputDirectory

end RootLake.Index

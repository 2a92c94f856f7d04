/-
  RootLake/Dataset/Coalescing.lean
  ================================
  **What joining rows does to the identity of an entry.**

  A task gives every entry it holds its own file id and event base.  A candidate joined
  to the previous task takes over that task's, because the join test compares URI, tree,
  schema, entries and physical order, and neither of the two.  The rows of one snapshot
  have one file id and one event base for a URI; the rows of several snapshots of a
  file, which a catalog given by table names holds, do not.

  The end of a joined task is the end of its last candidate, so the join test compares
  each candidate with the one before it, and the condition can be read off the rows.
-/
import RootLake.Dataset.PlanCoverage
import Mathlib.Data.Multiset.Basic

namespace RootLake.Dataset

/-! ### Triples -/

/-- File id, event base and entry: what a row of the result is labelled with. -/
abbrev EntryTriple := String × UInt64 × UInt64

/-- The entries of a task under the labels of another. -/
def RootBasketTask.triplesUnder (label task : RootBasketTask) : List EntryTriple :=
  task.entries.map fun entry => (label.fileId, label.eventBase, entry)

def RootBasketTask.triples (task : RootBasketTask) : List EntryTriple := task.triplesUnder task

/-- The triples a list of tasks describes. -/
def describedTriples (tasks : List RootBasketTask) : Multiset EntryTriple :=
  (tasks.flatMap RootBasketTask.triples : List EntryTriple)

section

variable (input : PlanInput)

/-- The candidates of a row that its Bloom filter does not exclude. -/
def rowCandidates (row : BasketRow) : List RootBasketTask :=
  if passesBloom input row then candidateTasks input row.task else []

/-! ### Joins -/

/-- A candidate that continues the one before it has its file id and event base. -/
def JoinsAgree (candidates : List RootBasketTask) : Prop :=
  candidates.IsChain fun previous candidate =>
    continuesTask input previous candidate = true →
      previous.fileId = candidate.fileId ∧ previous.eventBase = candidate.eventBase

instance (candidates : List RootBasketTask) : Decidable (JoinsAgree input candidates) :=
  inferInstanceAs (Decidable (candidates.IsChain _))

/-- What the candidates become behind the candidate `last`, which stands in a task with the
    given labels: as long as they continue one another they take over the labels. -/
def joinedTriples (label last : RootBasketTask) : List RootBasketTask → List EntryTriple
  | [] => []
  | candidate :: rest =>
      if continuesTask input last candidate then
        label.triplesUnder candidate ++ joinedTriples label candidate rest
      else candidate.triples ++ joinedTriples candidate candidate rest

/-- A range that is a range. -/
def RootBasketTask.Proper (task : RootBasketTask) : Prop :=
  task.entryBegin.toNat ≤ task.entryEnd.toNat

instance (task : RootBasketTask) : Decidable task.Proper :=
  inferInstanceAs (Decidable (_ ≤ _))

/-- The task ends with the candidate, on disk as well as in entries. -/
structure RootBasketTask.EndsWith (task last : RootBasketTask) : Prop where
  rootUri : task.rootUri = last.rootUri
  treeName : task.treeName = last.treeName
  schemaId : task.schemaId = last.schemaId
  entryEnd : task.entryEnd = last.entryEnd
  offset : task.physicalOffset + task.compressedSize = last.physicalOffset + last.compressedSize

/-- The join test reads the end of a task only, so it compares consecutive candidates. -/
theorem RootBasketTask.EndsWith.continuesTask_eq {task last : RootBasketTask}
    (h : task.EndsWith last) (candidate : RootBasketTask) :
    continuesTask input task candidate = continuesTask input last candidate := by
  unfold continuesTask
  rw [h.rootUri, h.treeName, h.schemaId, h.entryEnd, h.offset]

theorem continuesTask_adjacent {previous candidate : RootBasketTask}
    (h : continuesTask input previous candidate = true) :
    previous.entryEnd = candidate.entryBegin := by
  simp only [continuesTask, Bool.and_eq_true, beq_iff_eq] at h
  exact h.1.1.2

theorem extendTask_endsWith {previous candidate : RootBasketTask}
    (h : continuesTask input previous candidate = true) :
    (extendTask previous candidate).EndsWith candidate := by
  simp only [continuesTask, Bool.and_eq_true, beq_iff_eq] at h
  obtain ⟨⟨⟨⟨⟨huri, htree⟩, hschema⟩, -⟩, -⟩, -⟩ := h
  refine ⟨huri, htree, hschema, rfl, ?_⟩
  change previous.physicalOffset +
    (candidate.physicalOffset + candidate.compressedSize - previous.physicalOffset) = _
  rw [UInt64.add_comm, UInt64.sub_add_cancel]

/-- A joined task holds the entries of both parts in order. -/
theorem entries_extendTask {previous candidate : RootBasketTask}
    (hprevious : previous.Proper) (hcandidate : candidate.Proper)
    (hadjacent : previous.entryEnd = candidate.entryBegin) :
    (extendTask previous candidate).entries = previous.entries ++ candidate.entries := by
  have hword : previous.entryEnd.toNat = candidate.entryBegin.toNat := by rw [hadjacent]
  unfold RootBasketTask.Proper at hprevious hcandidate
  unfold RootBasketTask.entries extendTask
  dsimp only
  rw [← List.map_append]
  congr 1
  rw [← hword, show previous.entryEnd.toNat = previous.entryBegin.toNat +
      (previous.entryEnd.toNat - previous.entryBegin.toNat) by omega]
  rw [Nat.add_sub_cancel_left, List.range'_append_1]
  congr 1
  omega

theorem triples_extendTask {previous candidate : RootBasketTask}
    (hprevious : previous.Proper) (hcandidate : candidate.Proper)
    (hadjacent : previous.entryEnd = candidate.entryBegin) :
    (extendTask previous candidate).triples =
      previous.triples ++ previous.triplesUnder candidate := by
  unfold RootBasketTask.triples RootBasketTask.triplesUnder
  rw [entries_extendTask hprevious hcandidate hadjacent, List.map_append]
  rfl

/-- An extended task keeps its labels. -/
theorem joinedTriples_extendTask (label joined : RootBasketTask)
    (candidates : List RootBasketTask) :
    ∀ last, joinedTriples input (extendTask label joined) last candidates =
      joinedTriples input label last candidates := by
  induction candidates with
  | nil => intro last; rfl
  | cons candidate rest ih =>
    intro last
    rw [joinedTriples, joinedTriples, ih candidate]
    rfl

/-- **What the loop describes**, with the newest task first: the tasks that were there, and
    the candidates under the labels that the joins give them. -/
theorem scheduleCandidates_triples {candidates : List RootBasketTask}
    (hcandidates : ∀ task ∈ candidates, task.Proper) :
    ∀ {task last : RootBasketTask} {older tasks' : List RootBasketTask},
      scheduleCandidates input (task :: older) candidates = .ok tasks' →
      task.Proper → task.EndsWith last →
      tasks'.reverse.flatMap RootBasketTask.triples =
        (task :: older).reverse.flatMap RootBasketTask.triples ++
          joinedTriples input task last candidates := by
  induction candidates with
  | nil =>
    intro task last older tasks' h _ _
    cases h
    rw [joinedTriples, List.append_nil]
  | cons candidate rest ih =>
    intro task last older tasks' h htask hends
    obtain ⟨hcandidate, hrest⟩ := List.forall_mem_cons.mp hcandidates
    simp only [scheduleCandidates, scheduleCandidate] at h
    rw [joinedTriples, ← hends.continuesTask_eq input candidate]
    by_cases hcontinues : continuesTask input task candidate = true
    · rw [if_pos hcontinues] at h ⊢
      have hadjacent := continuesTask_adjacent input hcontinues
      split at h
      next => cases h
      next tasks hstep =>
        split at hstep
        next => cases hstep
        next =>
          cases hstep
          have hextended : (extendTask task candidate).Proper := by
            have hword : task.entryEnd.toNat = candidate.entryBegin.toNat := by rw [hadjacent]
            exact Nat.le_trans (hword ▸ htask) hcandidate
          rw [ih hrest h hextended (extendTask_endsWith input hcontinues), List.reverse_cons,
            List.flatMap_append, List.flatMap_singleton,
            triples_extendTask htask hcandidate hadjacent, List.reverse_cons,
            List.flatMap_append, List.flatMap_singleton, joinedTriples_extendTask]
          simp only [List.append_assoc]
    · rw [if_neg hcontinues] at h ⊢
      rw [ih hrest h hcandidate ⟨rfl, rfl, rfl, rfl, rfl⟩, List.reverse_cons,
        List.flatMap_append, List.flatMap_singleton, List.append_assoc]

/-- Under labels that agree a candidate keeps its triples. -/
theorem triplesUnder_eq {label candidate : RootBasketTask}
    (h : label.fileId = candidate.fileId ∧ label.eventBase = candidate.eventBase) :
    label.triplesUnder candidate = candidate.triples := by
  unfold RootBasketTask.triples RootBasketTask.triplesUnder
  rw [h.1, h.2]

/-- A candidate with an entry keeps its triples only under labels that agree. -/
theorem agree_of_triplesUnder_eq {label candidate : RootBasketTask}
    (hentry : candidate.entryBegin.toNat < candidate.entryEnd.toNat)
    (h : label.triplesUnder candidate = candidate.triples) :
    label.fileId = candidate.fileId ∧ label.eventBase = candidate.eventBase := by
  have hne : candidate.entries ≠ [] := by
    intro hnil
    have hlength := congrArg List.length hnil
    rw [RootBasketTask.entries, List.length_map, List.length_range', List.length_nil] at hlength
    omega
  obtain ⟨entry, rest, hentries⟩ := List.exists_cons_of_ne_nil hne
  unfold RootBasketTask.triples RootBasketTask.triplesUnder at h
  rw [hentries, List.map_cons, List.map_cons, List.cons.injEq, Prod.mk.injEq, Prod.mk.injEq] at h
  exact ⟨h.1.1, h.1.2.1⟩

theorem length_triplesUnder (label candidate : RootBasketTask) :
    (label.triplesUnder candidate).length = candidate.triples.length := by
  unfold RootBasketTask.triples RootBasketTask.triplesUnder
  rw [List.length_map, List.length_map]

/-- Joins that agree change no triple. -/
theorem joinedTriples_of_agree {candidates : List RootBasketTask} :
    ∀ {label last : RootBasketTask},
      label.fileId = last.fileId ∧ label.eventBase = last.eventBase →
      JoinsAgree input (last :: candidates) →
      joinedTriples input label last candidates = candidates.flatMap RootBasketTask.triples := by
  induction candidates with
  | nil => intro label last _ _; rfl
  | cons candidate rest ih =>
    intro label last hlabel hagree
    obtain ⟨hhere, hmore⟩ := List.isChain_cons_cons.mp hagree
    rw [joinedTriples, List.flatMap_cons]
    split
    next hcontinues =>
      have hsame : label.fileId = candidate.fileId ∧ label.eventBase = candidate.eventBase :=
        ⟨hlabel.1.trans (hhere hcontinues).1, hlabel.2.trans (hhere hcontinues).2⟩
      rw [triplesUnder_eq hsame, ih hsame hmore]
    next => rw [ih ⟨rfl, rfl⟩ hmore]

/-- Candidates with entries that keep their triples one by one have joins that agree. -/
theorem agree_of_joinedTriples {candidates : List RootBasketTask}
    (hentries : ∀ task ∈ candidates, task.entryBegin.toNat < task.entryEnd.toNat) :
    ∀ {label last : RootBasketTask},
      label.fileId = last.fileId ∧ label.eventBase = last.eventBase →
      joinedTriples input label last candidates = candidates.flatMap RootBasketTask.triples →
      JoinsAgree input (last :: candidates) := by
  induction candidates with
  | nil =>
    intro label last _ _
    exact .singleton last
  | cons candidate rest ih =>
    intro label last hlabel heq
    obtain ⟨hentry, hrest⟩ := List.forall_mem_cons.mp hentries
    rw [joinedTriples, List.flatMap_cons] at heq
    refine List.isChain_cons_cons.mpr ?_
    split at heq
    next hcontinues =>
      obtain ⟨hcandidate, hmore⟩ :=
        List.append_inj heq (length_triplesUnder label candidate)
      have hsame := agree_of_triplesUnder_eq hentry hcandidate
      exact ⟨fun _ => ⟨hlabel.1.symm.trans hsame.1, hlabel.2.symm.trans hsame.2⟩,
        ih hrest hsame hmore⟩
    next hcontinues =>
      exact ⟨fun h => absurd h hcontinues, ih hrest ⟨rfl, rfl⟩ (List.append_cancel_left heq)⟩

/-! ### The whole task loop -/

theorem scheduleCandidates_append (candidates more : List RootBasketTask) :
    ∀ {tasks between : List RootBasketTask},
      scheduleCandidates input tasks candidates = .ok between →
      scheduleCandidates input tasks (candidates ++ more) =
        scheduleCandidates input between more := by
  induction candidates with
  | nil =>
    intro tasks between h
    cases h
    rfl
  | cons candidate rest ih =>
    intro tasks between h
    simp only [scheduleCandidates, List.cons_append] at h ⊢
    cases hstep : scheduleCandidate input tasks candidate with
    | error e =>
      rw [hstep] at h
      cases h
    | ok tasks' =>
      rw [hstep] at h
      exact ih h

/-- A round schedules the candidates of its row. -/
theorem planRow_schedules {state state' : PlanState} {row : BasketRow}
    (h : planRow input state row = .ok state') :
    scheduleCandidates input state.tasks (rowCandidates input row) = .ok state'.tasks := by
  unfold planRow at h
  split at h
  next => cases h
  next =>
    have hsame := countBloom_tasks input state row
    generalize countBloom input state row = counted at h hsame
    unfold rowCandidates
    dsimp only at h
    split at h
    next hbloom =>
      cases h
      rw [if_neg (by simpa using hbloom), ← hsame]
      rfl
    next hbloom =>
      rw [if_pos (by simpa using hbloom)]
      cases hcandidates : candidateTasks input row.task with
      | nil =>
        rw [hcandidates] at h
        cases h
        rw [← hsame]
        rfl
      | cons candidate rest =>
        rw [hcandidates] at h
        dsimp only at h
        split at h
        next => cases h
        next counted' hcount =>
          have hsame' : counted'.tasks = counted.tasks := by
            unfold countBasket at hcount
            split at hcount
            next => cases hcount
            next => cases hcount; rfl
          split at h
          next => cases h
          next tasks hschedule =>
            cases h
            rw [← hsame, ← hsame']
            exact hschedule

theorem planRows_schedules {rows : List BasketRow} :
    ∀ {state state' : PlanState} {fetched : List BasketRow},
      planRows input state rows = .ok (state', fetched) →
      fetched <+: rows ∧
        scheduleCandidates input state.tasks (fetched.flatMap (rowCandidates input)) =
          .ok state'.tasks := by
  induction rows with
  | nil =>
    intro state state' fetched h
    cases h
    exact ⟨List.prefix_refl _, rfl⟩
  | cons row rest ih =>
    intro state state' fetched h
    simp only [planRows] at h
    cases hstep : planRow input state row with
    | error e =>
      rw [hstep] at h
      cases h
    | ok between =>
      rw [hstep] at h
      have hrow := planRow_schedules input hstep
      dsimp only at h
      split at h
      next =>
        cases h
        refine ⟨⟨rest, rfl⟩, ?_⟩
        rw [List.flatMap_singleton]
        exact hrow
      next =>
        cases hloop : planRows input between rest with
        | error e =>
          rw [hloop] at h
          cases h
        | ok result =>
          obtain ⟨last, more⟩ := result
          rw [hloop] at h
          cases h
          obtain ⟨hfetched, hmore⟩ := ih hloop
          refine ⟨(List.prefix_cons_inj row).mpr hfetched, ?_⟩
          rw [List.flatMap_cons, scheduleCandidates_append input _ _ hrow]
          exact hmore

theorem rowCandidates_proper {row : BasketRow} (h : row.task.Proper) :
    ∀ candidate ∈ rowCandidates input row, candidate.Proper := by
  intro candidate hmem
  unfold rowCandidates at hmem
  split at hmem
  next =>
    have hdescribed : row.task.Described fun _ => row.task.eventBase := ⟨h, rfl⟩
    exact (candidateTasks_described input hdescribed candidate hmem).proper
  next => cases hmem

/-- A plan describes the candidates of the fetched rows under the labels of their joins. -/
theorem plan_triples {rows fetched : List BasketRow} {global : DatasetGlobalState}
    {state : PlanState} (hplan : plan input rows = .ok (global, state, fetched))
    (hproper : ∀ row ∈ rows, row.task.Proper) :
    global.tasks.flatMap RootBasketTask.triples =
      match fetched.flatMap (rowCandidates input) with
      | [] => []
      | first :: rest => first.triples ++ joinedTriples input first first rest := by
  unfold plan at hplan
  cases hloop : planRows input {} rows with
  | error e =>
    rw [hloop] at hplan
    cases hplan
  | ok result =>
    obtain ⟨last, more⟩ := result
    rw [hloop] at hplan
    cases hplan
    obtain ⟨hfetched, hschedule⟩ := planRows_schedules input hloop
    have hcandidates : ∀ task ∈ fetched.flatMap (rowCandidates input), task.Proper := by
      intro task htask
      obtain ⟨row, hrow, hmem⟩ := List.mem_flatMap.mp htask
      exact rowCandidates_proper input (hproper row (hfetched.subset hrow)) task hmem
    change state.tasks.reverse.flatMap RootBasketTask.triples = _
    generalize fetched.flatMap (rowCandidates input) = candidates at hschedule hcandidates
    cases candidates with
    | nil =>
      have hnone : state.tasks = [] := (Except.ok.inj hschedule).symm
      rw [hnone]
      rfl
    | cons first rest =>
      obtain ⟨hfirst, hrest⟩ := List.forall_mem_cons.mp hcandidates
      -- The first candidate is the first task, and ends with itself.
      exact (scheduleCandidates_triples input hrest hschedule hfirst ⟨rfl, rfl, rfl, rfl, rfl⟩).trans
        (by rw [List.reverse_singleton, List.flatMap_singleton])

/-- **When joining keeps identities.**  If the candidates of the fetched rows that continue
    their predecessors have the predecessors' file ids and event bases, the tasks of the plan
    describe the candidates' triples.  Candidates with entries keep their triples in order
    only then. -/
theorem plan_keeps_triples {rows fetched : List BasketRow} {global : DatasetGlobalState}
    {state : PlanState} (hplan : plan input rows = .ok (global, state, fetched))
    (hproper : ∀ row ∈ rows, row.task.Proper) :
    (JoinsAgree input (fetched.flatMap (rowCandidates input)) →
      describedTriples global.tasks =
        describedTriples (fetched.flatMap (rowCandidates input))) ∧
    ((∀ candidate ∈ fetched.flatMap (rowCandidates input),
        candidate.entryBegin.toNat < candidate.entryEnd.toNat) →
      (global.tasks.flatMap RootBasketTask.triples =
          (fetched.flatMap (rowCandidates input)).flatMap RootBasketTask.triples ↔
        JoinsAgree input (fetched.flatMap (rowCandidates input)))) := by
  have hplanned := plan_triples input hplan hproper
  generalize fetched.flatMap (rowCandidates input) = candidates at hplanned
  cases candidates with
  | nil =>
    refine ⟨fun _ => ?_, fun _ => ⟨fun _ => .nil, fun _ => hplanned⟩⟩
    unfold describedTriples
    rw [hplanned]
    rfl
  | cons first rest =>
    have hkeeps (hagree : JoinsAgree input (first :: rest)) :
        global.tasks.flatMap RootBasketTask.triples =
          (first :: rest).flatMap RootBasketTask.triples := by
      rw [hplanned, List.flatMap_cons]
      dsimp only
      rw [joinedTriples_of_agree input ⟨rfl, rfl⟩ hagree]
    constructor
    · intro hagree
      unfold describedTriples
      rw [hkeeps hagree]
    · intro hentries
      refine ⟨fun heq => ?_, hkeeps⟩
      rw [hplanned, List.flatMap_cons] at heq
      exact agree_of_joinedTriples input (List.forall_mem_cons.mp hentries).2 ⟨rfl, rfl⟩
        (List.append_cancel_left heq)

end

/-! ### Two snapshots of a file -/

/-- A basket of one entry of `z.root`, in the snapshot with the given event base. -/
def generationRow (eventBase entry : UInt64) : BasketRow where
  task :=
    { fileId := "z", rootUri := "z.root", treeName := "Events", schemaId := "s"
      eventBase := eventBase, entryBegin := entry, entryEnd := entry + 1, valueCount := 1
      physicalOffset := entry, compressedSize := 1, basketCount := 1
      fileTotalEntries := 2, fileTotalBaskets := 2 }

/-- One snapshot: its two rows are joined, and keep their triples. -/
theorem plan_keeps_triples_of_generation :
    ∃ global state, plan {} [generationRow 0 0, generationRow 0 1] =
        .ok (global, state, [generationRow 0 0, generationRow 0 1]) ∧
      global.tasks.length = 1 ∧
      describedTriples global.tasks =
        describedTriples ([generationRow 0 0, generationRow 0 1].flatMap
          (rowCandidates {})) ∧
      global.tasks.flatMap RootBasketTask.triples =
        ([generationRow 0 0, generationRow 0 1].flatMap
          (rowCandidates {})).flatMap RootBasketTask.triples := by
  refine ⟨_, _, rfl, by decide, ?_⟩
  obtain ⟨hmultiset, horder⟩ := @plan_keeps_triples {} [generationRow 0 0, generationRow 0 1]
    _ _ _ rfl (by decide)
  exact ⟨hmultiset (by decide), (horder (by decide)).mpr (by decide)⟩

/-- Two snapshots, in the order of their offsets: the second entry of the first one is
    joined to the task of the second one, and gets its event base. -/
theorem plan_relabels_generations :
    ∃ global state, plan {} [generationRow 0 0, generationRow 10 0,
          generationRow 0 1, generationRow 10 1] =
        .ok (global, state, [generationRow 0 0, generationRow 10 0,
          generationRow 0 1, generationRow 10 1]) ∧
      describedTriples global.tasks ≠
        describedTriples ([generationRow 0 0, generationRow 10 0,
          generationRow 0 1, generationRow 10 1].flatMap (rowCandidates {})) :=
  ⟨_, _, rfl, by decide⟩

def BasketRow.atOffset (row : BasketRow) (physicalOffset : UInt64) : BasketRow :=
  { row with task := { row.task with physicalOffset := physicalOffset } }

/-- Rows that agree nowhere may exchange their labels: as a multiset the triples are kept. -/
example : ∃ global state rows, plan {} rows = .ok (global, state, rows) ∧
    ¬ JoinsAgree {} (rows.flatMap (rowCandidates {})) ∧
    describedTriples global.tasks = describedTriples (rows.flatMap (rowCandidates {})) :=
  ⟨_, _, [(generationRow 0 0).atOffset 0, (generationRow 10 1).atOffset 1,
    (generationRow 10 0).atOffset 2, (generationRow 0 1).atOffset 3], rfl, by decide, by decide⟩

end RootLake.Dataset

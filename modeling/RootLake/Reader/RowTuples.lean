import RootLake.Reader.PagedTraversal

/-!
# Values of an object have different indices

Two turns of a loop of the traversal give their values different indices at the loop's own
level, so no two values of an object have the same tuple (`traversalEvents_pairwise`), and
neither have two rows that are read of it (`rows_nodup`).
-/

namespace RootLake

open Batch

/-- If both are values, their indices differ. -/
def DifferentTuples (event event' : TraversalEvent) : Prop :=
  ∀ e e', event = .row e → event' = .row e' → e.indices ≠ e'.indices

section

variable {mem : RootMemory} {level : PathLevel} {rest : List PathLevel} {indices : List Int}

theorem leafEvents_pairwise (leaf : Option (Except TraversalError SinkValue))
    (indices : List Int) (names : List String) :
    (leafEvents leaf indices names).Pairwise DifferentTuples := by
  match leaf with
  | none => exact List.Pairwise.nil
  | some (.error _) => exact List.pairwise_singleton _ _
  | some (.ok _) => exact List.pairwise_singleton _ _

/-- Two elements of a fixed array have different coordinates. -/
theorem arrayEvents_different {array : FixedArray} {field : Address} {names : List String}
    {i j : Nat} (hi : i < array.length) (hj : j < array.length) (hij : i ≠ j)
    {event event' : TraversalEvent}
    (h : event ∈ arrayEvents mem level rest array field indices names i)
    (h' : event' ∈ arrayEvents mem level rest array field indices names j) :
    DifferentTuples event event' := by
  rintro e e' rfl rfl heq
  obtain ⟨first, more, hpush, hmore⟩ :=
    (arrayEvents_ok (traversalEvents_ok rest) array field i _ h).2 e rfl
  obtain ⟨second, more', hpush', hmore'⟩ :=
    (arrayEvents_ok (traversalEvents_ok rest) array field j _ h').2 e' rfl
  obtain ⟨coordinates, rfl, hall, hflat⟩ := pushArrayCoordinates_spec array hi hpush
  obtain ⟨coordinates', rfl, hall', hflat'⟩ := pushArrayCoordinates_spec array hj hpush'
  rw [hmore, hmore', List.append_assoc, List.append_assoc] at heq
  have hsame := List.append_inj_left (List.append_cancel_left heq)
    (hall.length_eq.symm.trans hall'.length_eq)
  rw [← hflat, ← hflat', hsame] at hij
  exact hij rfl

theorem containerEvents_different {elements : List Address} {names : List String} {i j : Nat}
    (hij : i ≠ j) {event event' : TraversalEvent}
    (h : event ∈ containerEvents mem level rest elements indices names i)
    (h' : event' ∈ containerEvents mem level rest elements indices names j) :
    DifferentTuples event event' := by
  rintro e e' rfl rfl heq
  obtain ⟨more, hmore⟩ := (containerEvents_ok (traversalEvents_ok rest) elements i _ h).2 e rfl
  obtain ⟨more', hmore'⟩ := (containerEvents_ok (traversalEvents_ok rest) elements j _ h').2 e' rfl
  rw [hmore, hmore', List.append_assoc, List.append_assoc] at heq
  have hsame := List.append_cancel_left heq
  rw [List.singleton_append, List.singleton_append, List.cons.injEq] at hsame
  exact hij (by omega)

/-- A loop whose turns differ from each other differs everywhere. -/
theorem loop_pairwise {events : Nat → List TraversalEvent} {n : Nat}
    (hturn : ∀ i < n, (events i).Pairwise DifferentTuples)
    (hturns : ∀ i < n, ∀ j < n, i ≠ j → ∀ event ∈ events i, ∀ event' ∈ events j,
      DifferentTuples event event') :
    ((List.range' 0 n).flatMap events).Pairwise DifferentTuples := by
  have hlt {i : Nat} (hi : i ∈ List.range' 0 n) : i < n := by
    simpa using (List.mem_range'_1.mp hi).2
  rw [List.pairwise_flatMap]
  refine ⟨fun i hi => hturn i (hlt hi), ?_⟩
  refine List.Pairwise.imp_of_mem (fun hi hj hij => ?_)
    (List.nodup_range' : (List.range' 0 n).Nodup)
  exact hturns _ (hlt hi) _ (hlt hj) hij

/-- No two values of an object have the same indices. -/
theorem traversalEvents_pairwise (levels : List PathLevel) :
    ∀ (current : Address) (indices : List Int) (names : List String),
      (traversalEvents mem levels current indices names).Pairwise DifferentTuples := by
  induction levels with
  | nil => exact fun _ _ _ => List.Pairwise.nil
  | cons level rest ih =>
    intro current indices names
    -- One turn of a loop: its value, or the levels below.
    have hturn (leaf : Option (Except TraversalError SinkValue)) (element : Address)
        (indices : List Int) (names : List String) :
        (if rest.isEmpty then leafEvents leaf indices names
          else traversalEvents mem rest element indices names).Pairwise DifferentTuples := by
      split
      · exact leafEvents_pairwise leaf indices names
      · exact ih element indices names
    by_cases hpasses : ∃ field, Passes mem level current field
    case neg =>
      rw [traversalEvents_blocked (not_exists.mp hpasses)]
      exact List.Pairwise.nil
    obtain ⟨field, hpass⟩ := hpasses
    cases ha : level.fixedArray with
    | some array =>
      rw [traversalEvents_array hpass ha]
      apply loop_pairwise
      · intro i _
        unfold arrayEvents
        split
        · exact List.pairwise_singleton _ _
        · exact hturn _ _ _ _
      · intro i hi j hj hij event h event' h'
        exact arrayEvents_different hi hj hij h h'
    | none =>
      cases hc : level.isContainer with
      | true =>
        rw [traversalEvents_container hpass ha hc]
        split
        · exact List.Pairwise.nil
        · apply loop_pairwise
          · intro i _
            unfold containerEvents
            split
            · exact List.pairwise_singleton _ _
            · split
              · exact List.Pairwise.nil
              · exact hturn _ _ _ _
          · intro i _ j _ hij event h event' h'
            exact containerEvents_different hij h h'
      | false =>
        rw [traversalEvents_scalar hpass ha hc]
        split
        · exact leafEvents_pairwise _ _ _
        · split
          · exact ih _ _ _
          · exact List.Pairwise.nil

/-- No two rows of an object have the same indices. -/
theorem rows_nodup {levels : List PathLevel} {object : Address} {entryId : Int64}
    {result : ReadResult} (h : collectDirect mem object levels (-1) entryId {} = .ok result) :
    (result.rows.map (·.indices)).Nodup := by
  rw [collectDirect_eq] at h
  cases hrows : outcome (traversalEvents mem levels object [] []) with
  | error e =>
    rw [hrows] at h
    cases h
  | ok rows =>
    rw [hrows] at h
    cases h
    rw [foldl_add_rows, List.nil_append, List.map_map]
    have hpairwise := @traversalEvents_pairwise mem levels object [] []
    have hquiet : Quiet (traversalEvents mem levels object [] []) := by
      by_contra hnot
      obtain ⟨e, he⟩ := outcome_error_of_not_quiet hnot
      cases hrows.symm.trans he
    rw [outcome_of_quiet hquiet] at hrows
    cases hrows
    generalize traversalEvents mem levels object [] [] = events at hpairwise hquiet
    induction events with
    | nil => exact List.nodup_nil
    | cons event events ih =>
      obtain ⟨hhead, htail⟩ := List.pairwise_cons.mp hpairwise
      have hrest := ih htail fun e he => hquiet e (List.mem_cons_of_mem _ he)
      cases event with
      | idle => exact hrest
      | fail e => exact absurd List.mem_cons_self (hquiet e)
      | row e =>
        refine List.nodup_cons.mpr ⟨fun hmem => ?_, hrest⟩
        obtain ⟨e', he', heq⟩ := List.mem_map.mp hmem
        refine hhead (.row e') ?_ e e' rfl rfl heq.symm
        exact mem_of_outcome_ok
          (outcome_of_quiet fun e he => hquiet e (List.mem_cons_of_mem _ he)) he'

end

end RootLake

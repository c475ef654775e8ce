/-
**Whole searches.**

* `Search.Turn` — all that a round can do, as `Search.Sound.turn` shows: it finds that no state is
  left, it stops where it was told to, it fails where the graph does, or it looks at one more state.
* `explore_spec` — a search that ends does so with a turn of a sound search.
* `explore_ends` — it does end if there are finitely many reachable states, with any bound on them.
-/

import StateSpace.Proofs.Search.Endings

namespace StateSpace

open Explorable

variable {G : Type} [Explorable G]

/-- Different reachable states are no more than there are. -/
theorem length_le_ncard {graph : G} {states : List Image} (nodup : states.Nodup)
    (reachable : ∀ state ∈ states, Reachable graph state)
    (finite : {state | Reachable graph state}.Finite) :
    states.length ≤ {state | Reachable graph state}.ncard := by
  rw [← List.toFinset_card_of_nodup nodup, ← Set.ncard_coe_finset, List.coe_toFinset]
  exact Set.ncard_le_ncard reachable finite

namespace Search

/-- **What a round of a search can do.** -/
inductive Turn (graph : G) (limits : Limits) (done : Nat → Image → Bool) (search : Search G) :
    Round G → Prop where
  /-- No state is left to look at. -/
  | exhausted : search.looked = search.discovered.toList →
    Turn graph limits done search (.ended (search.outcome (.ok search.report)))
  /-- The search was told to stop at the next state. -/
  | stopped {state : Image} : search.discovered[search.report.states]? = some state →
    done (search.report.states + 1) state = true →
    Turn graph limits done search (.ended
      (search.looking.outcome (.ok { search.looking.report with stoppedAt := some state })))
  /-- The expansion of the next state fails. -/
  | failed {state : Image} {failure : Failure} :
    search.discovered[search.report.states]? = some state →
    done (search.report.states + 1) state = false → next graph state = .error failure →
    Turn graph limits done search (.ended
      ⟨.error failure, search.looking.looked, after graph (search.looked ++ [state])⟩)
  /-- The edges of the next state are followed. -/
  | moved {state : Image} {targets : List Image} {later : Search G} :
    search.discovered[search.report.states]? = some state →
    done (search.report.states + 1) state = false → next graph state = .ok targets →
    Sound graph limits later → later.looked = search.looked ++ [state] →
    Turn graph limits done search (.goesOn later)

namespace Sound

variable {graph : G} {limits : Limits} {done : Nat → Image → Bool} {search : Search G}

/-- **A round does nothing else.** -/
theorem turn (sound : Sound graph limits search) (steady : Steady graph)
    (apart : Apart (Reachable graph)) (done : Nat → Image → Bool) :
    Turn graph limits done search (search.advance limits done) := by
  rcases advance_cases limits done search with
    ⟨outcome, ended, ending⟩ | ⟨state, targets, found, goes, expands, goesOn⟩
  · rw [ended]
    cases ending with
    | exhausted missing => exact .exhausted (looked_eq_of_none missing)
    | stopped found stops => exact .stopped found stops
    | @failed state failure found goes fails =>
      have graphAfter : (successors search.graph state).2
          = after graph (search.looked ++ [state]) := by
        rw [after_append, ← sound.remembers]
        rfl
      rw [graphAfter]
      exact .failed found goes ((sound.next_graph steady found).symm.trans fails)
  · have expands' := (sound.next_graph steady found).symm.trans expands
    obtain ⟨later, looked⟩ := sound.arrive steady apart found expands'
    rw [goesOn]
    exact .moved found goes expands' later looked

/-- Following the edges of the next state keeps a search sound. -/
theorem keeps (steady : Steady graph) (apart : Apart (Reachable graph)) {state : Image}
    {targets : List Image} (sound : Sound graph limits search)
    (found : search.discovered[search.report.states]? = some state)
    (expands : next search.graph state = .ok targets) :
    Sound graph limits (targets.foldl (follow limits) (search.arrived state targets)) :=
  (sound.arrive steady apart found ((sound.next_graph steady found).symm.trans expands)).1

/-- No more states are looked at than there are. -/
theorem states_le_ncard (sound : Sound graph limits search)
    (finite : {state | Reachable graph state}.Finite) :
    search.report.states ≤ {state | Reachable graph state}.ncard := by
  rw [sound.tallies.states]
  exact length_le_ncard (sound.tabled.nodup.sublist (List.take_sublist _ _))
    (fun state member => sound.reachable state (looked_subset member)) finite

end Sound

end Search

/-! ### From the initial state -/

section Explore

variable {graph : G} {limits : Limits} {done : Nat → Image → Bool}

/-- There are no more reachable states than states that they stand for. -/
theorem finite_reachable_of_image {State : Type} (image : State → Image) {states : Set State}
    (finite : states.Finite)
    (inside : ∀ state, Reachable graph state → ∃ x ∈ states, image x = state) :
    {state | Reachable graph state}.Finite ∧
      {state | Reachable graph state}.ncard ≤ states.ncard := by
  have covered : {state | Reachable graph state} ⊆ image '' states := inside
  refine ⟨(finite.image image).subset covered, ?_⟩
  exact (Set.ncard_le_ncard covered (finite.image image)).trans (Set.ncard_image_le finite)

/-- **A search ends** if there are finitely many reachable states, with any bound on them. -/
theorem explore_ends (steady : Steady graph) (apart : Search.Apart (Reachable graph))
    (finite : {state | Reachable graph state}.Finite) :
    ∃ outcome, ∀ bound, {state | Reachable graph state}.ncard ≤ bound →
      explore bound graph limits done = some outcome := by
  obtain ⟨outcome, explored⟩ := exists_explore_of_le limits done
    (fun sound found _ expands => sound.keeps steady apart found expands)
    (Search.sound_start apart limits) (fun sound => sound.states_le_ncard finite) (Nat.le_refl _)
  exact ⟨outcome, fun bound le => explore_mono explored le⟩

/-- **How a search ends**: the graph has no initial state, or with a turn of a sound search. -/
theorem explore_spec (steady : Steady graph) (apart : Search.Apart (Reachable graph)) {bound : Nat}
    {outcome : Outcome G} (explored : explore bound graph limits done = some outcome) :
    (∃ failure, initial graph = .error failure ∧ outcome = ⟨.error failure, [], graph⟩) ∨
      ∃ state last, initial graph = .ok state ∧ Search.Sound graph limits last ∧
        Search.Turn graph limits done last (.ended outcome) ∧ last.report.states ≤ bound := by
  refine (explore_induct (fun sound found _ expands => sound.keeps steady apart found expands)
    (Search.sound_start apart limits) explored).imp_right ?_
  rintro ⟨state, last, begins, sound, _, ended, fewer⟩
  exact ⟨state, last, begins, sound, ended ▸ sound.turn steady apart done, fewer⟩

end Explore

end StateSpace

/-
**A search without bounds finds exactly what there is.**

* `Report.Exact` — a report that says of the reachable states of a graph how many there are, how
  many edges leave them, which have no successors and how many accept.
* `Search.Sound.exact` — so does the report of a sound search in which no state is left to look at.
* `explore_unbounded` — a search without ceiling and without a state to stop at fails where the
  graph does, or its report is exact.
* `explore_exact` — the search of a graph with finitely many reachable states ends, it fails only
  where the graph does, and else its report is exact.
-/

import Mathlib.Algebra.BigOperators.Finprod
import StateSpace.Graph.Listed
import StateSpace.Proofs.Search.Runs

namespace StateSpace

open Explorable

variable {G : Type} [Explorable G]

/-- **A report that is true of a graph.** -/
structure Report.Exact (graph : G) (report : Report) : Prop where
  states : report.states = {state | Reachable graph state}.ncard
  transitions : report.transitions
    = ∑ᶠ state ∈ {state | Reachable graph state}, (outgoing graph state).length
  mem_deadlocks : ∀ state,
    state ∈ report.deadlocks.toList ↔ Reachable graph state ∧ next graph state = .ok []
  nodup_deadlocks : report.deadlocks.toList.Nodup
  ordered_deadlocks : report.deadlocks.toList.Pairwise fun first second =>
    distance graph first ≤ distance graph second
  accepting : report.accepting
    = {state | Reachable graph state ∧ Explorable.accepting graph state = true}.ncard
  truncated : report.truncated = false
  stoppedAt : report.stoppedAt = none

namespace Search.Sound

variable {graph : G} {limits : Limits} {search : Search G}

/-- Where no state is left and none was left out, the reachable states are those looked at. -/
theorem reachable_iff (sound : Sound graph limits search)
    (all : search.looked = search.discovered.toList) (room : search.report.truncated = false)
    {state : Image} : Reachable graph state ↔ state ∈ search.looked := by
  constructor
  · intro reachable
    rw [all]
    refine reachable.induct (· ∈ search.discovered.toList) sound.started
      fun before target _ known edge => ?_
    rw [← all] at known
    refine (sound.followed before known target edge).resolve_right ?_
    rw [room]
    exact Bool.false_ne_true
  · intro member
    exact sound.reachable state (looked_subset member)

/-- Without a ceiling no state is left out. -/
theorem not_truncated (sound : Sound graph {} search) : search.report.truncated = false := by
  refine Bool.eq_false_iff.mpr fun truncated => ?_
  have full := sound.full truncated
  rw [Search.isFull] at full
  cases full

/-- **A sound search with no state left has an exact report.** -/
theorem exact (sound : Sound graph limits search)
    (all : search.looked = search.discovered.toList) (room : search.report.truncated = false) :
    search.report.Exact graph := by
  have reachable : {state | Reachable graph state} = (search.looked.toFinset : Set Image) := by
    ext state
    rw [List.coe_toFinset]
    exact sound.reachable_iff all room
  have nodup : search.looked.Nodup := sound.tabled.nodup.sublist (List.take_sublist _ _)
  have sublist : search.report.deadlocks.toList.Sublist search.discovered.toList := by
    rw [sound.tallies.deadlocks, ← all]
    exact List.filter_sublist
  refine ⟨?_, ?_, fun state => ?_, sound.tabled.nodup.sublist sublist,
    sound.ordered.sublist sublist, ?_, room, sound.tallies.stoppedAt⟩
  · rw [sound.tallies.states, reachable, Set.ncard_coe_finset, List.toFinset_card_of_nodup nodup]
  · rw [sound.tallies.transitions, reachable, finsum_mem_coe_finset, List.sum_toFinset _ nodup]
  · rw [sound.tallies.deadlocks, List.mem_filter, isDeadlock_iff, sound.reachable_iff all room]
  · have accepting : {state | Reachable graph state ∧ Explorable.accepting graph state = true}
        = ((search.looked.filter (Explorable.accepting graph)).toFinset : Set Image) := by
      ext state
      rw [List.coe_toFinset]
      simp [sound.reachable_iff all room]
    rw [sound.tallies.accepting, accepting, Set.ncard_coe_finset,
      List.toFinset_card_of_nodup (nodup.filter _), List.countP_eq_length_filter]

end Search.Sound

/-- Different reachable states are no more than there are, and so are the edges that leave them. -/
theorem Report.Exact.length_le {graph : G} {report : Report} (exact : report.Exact graph)
    (finite : {state | Reachable graph state}.Finite) {states : List Image} (nodup : states.Nodup)
    (reachable : ∀ state ∈ states, Reachable graph state) :
    states.length ≤ report.states ∧
      (states.map fun state => (outgoing graph state).length).sum ≤ report.transitions := by
  constructor
  · rw [exact.states]
    exact length_le_ncard nodup reachable finite
  · have inside : states.toFinset ⊆ finite.toFinset := by
      intro state member
      rw [List.mem_toFinset] at member
      rw [Set.Finite.mem_toFinset]
      exact reachable state member
    rw [exact.transitions, finsum_mem_eq_finite_toFinset_sum _ finite, ← List.sum_toFinset _ nodup]
    exact Finset.sum_le_sum_of_subset inside

/-- **A search without bounds** fails where the graph does, or its report is exact and it expanded
every reachable state. -/
theorem explore_unbounded {graph : G} (steady : Steady graph)
    (apart : Search.Apart (Reachable graph)) {bound : Nat} {outcome : Outcome G}
    (explored : explore bound graph {} (fun _ _ => false) = some outcome) :
    (∃ failure, outcome.result = .error failure ∧
      (initial graph = .error failure ∨
        ∃ state, Reachable graph state ∧ next graph state = .error failure)) ∨
    ∃ report, outcome.result = .ok report ∧ report.Exact graph ∧ report.states ≤ bound ∧
      {state | Reachable graph state}.Finite ∧ (∃ state, initial graph = .ok state) ∧
      ∀ state, Reachable graph state → ∃ targets, next graph state = .ok targets := by
  rcases explore_spec steady apart explored with
    ⟨failure, begins, rfl⟩ | ⟨start, last, begins, sound, turn, fewer⟩
  · exact .inl ⟨failure, rfl, .inl begins⟩
  · cases turn with
    | exhausted all =>
      have room := sound.not_truncated
      refine .inr ⟨last.report, rfl, sound.exact all room, fewer, ?_, ⟨start, begins⟩,
        fun state reachable => sound.expanded state ((sound.reachable_iff all room).mp reachable)⟩
      refine last.looked.finite_toSet.subset fun state reachable => ?_
      exact (sound.reachable_iff all room).mp reachable
    | stopped found stops => cases stops
    | @failed state failure found stops fails =>
      refine .inl ⟨failure, rfl, .inr ⟨state, ?_, fails⟩⟩
      exact (sound.asked found).2 state (List.mem_append_right _ (List.mem_singleton.mpr rfl))

/-- **Exactness of the search.** Take a graph whose answers depend on the state alone and whose
reachable states are finitely many and of one length. The search without ceiling and without a state
to stop at ends, with any bound on the number of states; it fails exactly if there is no initial
state or the expansion of a reachable state fails; and else its report is exact. -/
theorem explore_exact (graph : G) (functional : Functional graph)
    (finite : {state | Reachable graph state}.Finite)
    (length : ∀ first second, Reachable graph first → Reachable graph second →
      first.size = second.size) :
    ∃ outcome : Outcome G,
      (∀ bound, {state | Reachable graph state}.ncard ≤ bound →
        explore bound graph {} (fun _ _ => false) = some outcome) ∧
      ((∃ failure, outcome.result = .error failure) ↔
        (∃ failure, initial graph = .error failure) ∨
          ∃ state, Reachable graph state ∧ ∃ failure, next graph state = .error failure) ∧
      ∀ report, outcome.result = .ok report → report.Exact graph := by
  have apart : Search.Apart (Reachable graph) := .of_size length
  obtain ⟨outcome, explored⟩ := explore_ends functional.steady apart finite
  refine ⟨outcome, explored, ?_⟩
  rcases explore_unbounded functional.steady apart (explored _ (Nat.le_refl _)) with
    ⟨failure, failed, cause⟩ | ⟨report, ended, exact, _, _, ⟨start, begins⟩, expands⟩
  · refine ⟨⟨fun _ => ?_, fun _ => ⟨failure, failed⟩⟩, fun report ended => ?_⟩
    · rcases cause with begins | ⟨state, reachable, fails⟩
      · exact .inl ⟨failure, begins⟩
      · exact .inr ⟨state, reachable, failure, fails⟩
    · rw [failed] at ended
      cases ended
  · refine ⟨⟨fun ⟨failure, failed⟩ => ?_, ?_⟩, fun report' ended' => ?_⟩
    · rw [ended] at failed
      cases failed
    · rintro (⟨failure, begins'⟩ | ⟨state, reachable, failure, fails⟩)
      · rw [begins] at begins'
        cases begins'
      · obtain ⟨targets, succeeds⟩ := expands state reachable
        rw [succeeds] at fails
        cases fails
    · rw [ended, Except.ok.injEq] at ended'
      subst ended'
      exact exact

/-! ### A graph with a loop and an exit -/

theorem Listed.functional (graph : Listed) : Functional graph :=
  .of_fixed fun _ => rfl

def loopWithExit : Listed where
  initial := some [0]
  edges := [([0], [[1], [2], [1]]), ([1], [[0]])]
  failing := []

theorem mem_of_reachable_loopWithExit {state : Image} (reachable : Reachable loopWithExit state) :
    state ∈ [Image.ofBytes [0], .ofBytes [1], .ofBytes [2]] := by
  refine reachable.induct (· ∈ [Image.ofBytes [0], .ofBytes [1], .ofBytes [2]])
    (fun first begins => ?_) fun before target _ known edge => ?_
  · cases begins
    exact List.mem_cons_self
  · simp only [List.mem_cons, List.not_mem_nil, or_false] at known
    obtain ⟨targets, expands, member⟩ := edge
    rcases known with rfl | rfl | rfl <;> cases expands <;> revert target <;> decide

theorem explore_exact_loopWithExit :
    Functional loopWithExit ∧ {state | Reachable loopWithExit state}.Finite ∧
      (∀ first second, Reachable loopWithExit first → Reachable loopWithExit second →
        first.size = second.size) ∧
      ∃ outcome : Outcome Listed,
        (∀ bound, {state | Reachable loopWithExit state}.ncard ≤ bound →
          explore bound loopWithExit {} (fun _ _ => false) = some outcome) ∧
        ∀ report, outcome.result = .ok report → report.Exact loopWithExit := by
  have finite : {state | Reachable loopWithExit state}.Finite :=
    (List.finite_toSet _).subset fun state reachable => mem_of_reachable_loopWithExit reachable
  have one : ∀ state, Reachable loopWithExit state → state.size = 1 := by
    intro state reachable
    have sizes : ∀ listed ∈ [Image.ofBytes [0], .ofBytes [1], .ofBytes [2]], listed.size = 1 := by
      decide
    exact sizes state (mem_of_reachable_loopWithExit reachable)
  have length : ∀ first second, Reachable loopWithExit first → Reachable loopWithExit second →
      first.size = second.size := fun first second reachable reachable' =>
    (one first reachable).trans (one second reachable').symm
  obtain ⟨outcome, explored, _, exact⟩ :=
    explore_exact loopWithExit loopWithExit.functional finite length
  exact ⟨loopWithExit.functional, finite, length, outcome, explored, exact⟩

end StateSpace

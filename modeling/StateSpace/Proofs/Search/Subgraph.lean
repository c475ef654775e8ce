/-
**Searches of subgraphs.**

* `Subgraph` — a graph that starts where another one does, and follows some of its edges.
* `Subgraph.reachable`, `Subgraph.outgoing_sublist` — where the larger graph does not fail, the
  other one reaches none but its states, and leaves them by no more edges.
* `Subgraph.exists_exact`, `Subgraph.le_of_exact` — so a search of it succeeds, and has no more to
  report.
-/

import StateSpace.Proofs.Search.Outcomes

namespace StateSpace

open Explorable

variable {G H : Type} [Explorable G] [Explorable H]

/-- **A graph that follows some of the edges of another one**, in their order, from each state that
the latter reaches and expands. -/
structure Subgraph (sub : H) (graph : G) : Prop where
  starts : initial sub = initial graph
  expands : ∀ {state : Image} {targets : List Image}, Reachable graph state →
    next graph state = .ok targets → ∃ kept, next sub state = .ok kept ∧ kept.Sublist targets

namespace Subgraph

variable {sub : H} {graph : G} (subgraph : Subgraph sub graph)
  (succeeds : ∀ state, Reachable graph state → ∃ targets, next graph state = .ok targets)

include subgraph succeeds

/-- **What a subgraph reaches is reached by the graph.** -/
theorem reachable {state : Image} (reachable : Reachable sub state) : Reachable graph state := by
  refine reachable.induct (Reachable graph) (fun first begins => ?_)
    fun before target _ known edge => ?_
  · exact .start (subgraph.starts.symm.trans begins)
  · obtain ⟨targets, expanded⟩ := succeeds before known
    obtain ⟨kept, expanded', sublist⟩ := subgraph.expands known expanded
    have member := (edge_iff expanded').mp edge
    exact known.step ((edge_iff expanded).mpr (sublist.subset member))

theorem exists_next {state : Image} (reachable : Reachable sub state) :
    ∃ kept, next sub state = .ok kept := by
  have known := subgraph.reachable succeeds reachable
  obtain ⟨targets, expanded⟩ := succeeds state known
  obtain ⟨kept, expanded', _⟩ := subgraph.expands known expanded
  exact ⟨kept, expanded'⟩

/-- **It leaves a state by edges of the graph**, in their order. -/
theorem outgoing_sublist {state : Image} (known : Reachable graph state) :
    (outgoing sub state).Sublist (outgoing graph state) := by
  obtain ⟨targets, expanded⟩ := succeeds state known
  obtain ⟨kept, expanded', sublist⟩ := subgraph.expands known expanded
  rw [outgoing_eq expanded, outgoing_eq expanded']
  exact sublist

/-- It fails nowhere, so a search without bounds finds what there is. -/
theorem exists_exact {start : Image} (begins : initial graph = .ok start)
    {result : Except Failure Report} (verdict : Verdict sub result) :
    ∃ report, result = .ok report ∧ report.Exact sub := by
  cases verdict with
  | noStart fails =>
    rw [subgraph.starts, begins] at fails
    cases fails
  | failed reachable fails =>
    obtain ⟨kept, expanded⟩ := subgraph.exists_next succeeds reachable
    rw [expanded] at fails
    cases fails
  | exact _ _ exact => exact ⟨_, rfl, exact⟩

variable (finite : {state | Reachable graph state}.Finite)

include finite

theorem finite_reachable :
    {state | Reachable sub state}.Finite ∧
      {state | Reachable sub state}.ncard ≤ {state | Reachable graph state}.ncard := by
  have inside : {state | Reachable sub state} ⊆ {state | Reachable graph state} := fun _ known =>
    subgraph.reachable succeeds known
  exact ⟨finite.subset inside, Set.ncard_le_ncard inside finite⟩

/-- **There is no more to report of a subgraph than of the graph.** -/
theorem le_of_exact {report report' : Report} (exact : report.Exact graph)
    (exact' : report'.Exact sub) :
    report'.states ≤ report.states ∧ report'.transitions ≤ report.transitions := by
  obtain ⟨finite', fewer⟩ := subgraph.finite_reachable succeeds finite
  have member : ∀ state ∈ finite'.toFinset.toList, Reachable graph state := by
    intro state listed
    rw [Finset.mem_toList, Set.Finite.mem_toFinset] at listed
    exact subgraph.reachable succeeds listed
  obtain ⟨_, fewerEdges⟩ := exact.length_le finite (Finset.nodup_toList _) member
  refine ⟨?_, le_trans ?_ fewerEdges⟩
  · rw [exact.states, exact'.states]
    exact fewer
  · rw [exact'.transitions, finsum_mem_eq_finite_toFinset_sum _ finite', ← Finset.sum_map_toList]
    refine List.sum_le_sum fun state listed => ?_
    exact (subgraph.outgoing_sublist succeeds (member state listed)).length_le

end Subgraph

end StateSpace

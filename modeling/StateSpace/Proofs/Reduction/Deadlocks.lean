/-
**Graphs of stubborn sets have the deadlocks of the full graph.**

* `Semantics.Walks` — a graph walks a semantics from a state if its states stand for those of the
  semantics and the edges that leave a reachable one are the enabled transitions.
* `Semantics.Walks.reachable_iff`, `Semantics.Walks.next_eq_nil_iff` — then the reachable states are
  those at the end of a run, and the ones without successors those where nothing is enabled.
* `Semantics.Walks.exists_exact` — a search without bounds succeeds on such a graph.
* `Semantics.Walks.exists_deadlock_before` — if one graph walks a semantics and another one its
  restriction to stubborn sets, the latter has a deadlock on the way to each one of the former.
* `Semantics.Walks.deadlocks_agree_iff` — so they have the same deadlocks, unless the reduced graph
  has one that is none in the full graph.
* `Semantics.Walks.deadlock_iff` — that does not happen if the sets have an enabled member wherever
  something is enabled that is not fired.
-/

import Mathlib.Logic.Relation
import StateSpace.Proofs.Reduction.Stubborn
import StateSpace.Proofs.Search.Lockstep

namespace StateSpace

open Explorable

namespace Semantics

variable {State Value : Type} {sem : Semantics State Value}

variable {G : Type} [Explorable G]

/-- **A graph that walks a semantics** from a state on. -/
structure Walks (sem : Semantics State Value) (graph : G) (image : State → Image)
    (start : State) : Prop where
  starts : initial graph = .ok (image start)
  expands : ∀ {x : State}, Reachable graph (image x) → ∃ fired : List Nat,
    next graph (image x) = .ok (fired.map fun t => image (sem.fire x t)) ∧
      ∀ t, t ∈ fired ↔ sem.enabled x t

namespace Walks

variable {graph : G} {image : State → Image} {start : State}

/-- A run leads from a reachable state to another one. -/
theorem reachable_of_run (walks : sem.Walks graph image start) {x y : State} {ts : List Nat}
    (run : sem.Run x ts y) (reachable : Reachable graph (image x)) : Reachable graph (image y) := by
  induction run with
  | nil x => exact reachable
  | @cons x y t ts enabled _ ih =>
    obtain ⟨fired, expands, listed⟩ := walks.expands reachable
    refine ih (reachable.step ⟨_, expands, ?_⟩)
    exact List.mem_map.mpr ⟨t, (listed t).mpr enabled, rfl⟩

/-- **The reachable states are those at the end of a run.** -/
theorem reachable_iff (walks : sem.Walks graph image start) {state : Image} :
    Reachable graph state ↔ ∃ x ts, sem.Run start ts x ∧ state = image x := by
  constructor
  · intro reachable
    refine reachable.induct (fun state => ∃ x ts, sem.Run start ts x ∧ state = image x)
      (fun first begins => ?_) fun before target known ended edge => ?_
    · rw [walks.starts, Except.ok.injEq] at begins
      exact ⟨start, [], .nil start, begins.symm⟩
    · obtain ⟨x, ts, run, rfl⟩ := ended
      obtain ⟨fired, expands, listed⟩ := walks.expands known
      obtain ⟨t, member, rfl⟩ := List.mem_map.mp ((edge_iff expands).mp edge)
      have step : sem.Run x [t] (sem.fire x t) := .cons ((listed t).mp member) (.nil _)
      exact ⟨sem.fire x t, ts ++ [t], run.append step, rfl⟩
  · rintro ⟨x, ts, run, rfl⟩
    exact walks.reachable_of_run run (.start walks.starts)

/-- **The states without successors are those where nothing is enabled.** -/
theorem next_eq_nil_iff (walks : sem.Walks graph image start) {x : State}
    (reachable : Reachable graph (image x)) :
    next graph (image x) = .ok [] ↔ ∀ t, ¬ sem.enabled x t := by
  obtain ⟨fired, expands, listed⟩ := walks.expands reachable
  rw [expands, Except.ok.injEq, List.map_eq_nil_iff, List.eq_nil_iff_forall_not_mem]
  exact forall_congr' fun t => not_congr (listed t)

theorem reflTransGen_of_run (walks : sem.Walks graph image start) {x y : State} {ts : List Nat}
    (run : sem.Run x ts y) (reachable : Reachable graph (image x)) :
    Relation.ReflTransGen (Edge graph) (image x) (image y) := by
  induction run with
  | nil x => exact .refl
  | @cons x y t ts enabled _ ih =>
    obtain ⟨fired, expands, listed⟩ := walks.expands reachable
    have edge : Edge graph (image x) (image (sem.fire x t)) :=
      ⟨_, expands, List.mem_map.mpr ⟨t, (listed t).mpr enabled, rfl⟩⟩
    exact .head edge (ih (reachable.step edge))

/-- Its states are among those of the semantics. -/
theorem finite_reachable (walks : sem.Walks graph image start)
    (finite : {x | ∃ ts, sem.Run start ts x}.Finite) :
    {state | Reachable graph state}.Finite ∧
      {state | Reachable graph state}.ncard ≤ {x | ∃ ts, sem.Run start ts x}.ncard := by
  refine finite_reachable_of_image image finite fun state reachable => ?_
  obtain ⟨x, ts, run, same⟩ := walks.reachable_iff.mp reachable
  exact ⟨x, ⟨ts, run⟩, same.symm⟩

/-- Nothing fails in it, so a search without bounds finds what there is. -/
theorem exists_exact (walks : sem.Walks graph image start) {result : Except Failure Report}
    (verdict : Verdict graph result) : ∃ report, result = .ok report ∧ report.Exact graph := by
  cases verdict with
  | noStart begins =>
    rw [walks.starts] at begins
    cases begins
  | failed reachable fails =>
    obtain ⟨x, _, _, rfl⟩ := walks.reachable_iff.mp reachable
    obtain ⟨_, expands, _⟩ := walks.expands reachable
    rw [expands] at fails
    cases fails
  | exact _ _ exact => exact ⟨_, rfl, exact⟩

section Reduced

variable {H : Type} [Explorable H] {reduced : H} {members : State → Nat → Prop}
  (walks : sem.Walks graph image start)
  (walksReduced : (sem.restrict members).Walks reduced image start)

include walks walksReduced

theorem reachable_of_reduced {state : Image} (reachable : Reachable reduced state) :
    Reachable graph state := by
  obtain ⟨x, ts, run, rfl⟩ := walksReduced.reachable_iff.mp reachable
  exact walks.reachable_iff.mpr ⟨x, ts, run.of_restrict, rfl⟩

variable (stubborn : ∀ x, sem.Stubborn x (members x))

include stubborn

/-- **On the way to a deadlock the reduced graph has one**, if not at it. -/
theorem exists_deadlock_before {state : Image} (reachable : Reachable graph state)
    (dead : next graph state = .ok []) :
    ∃ before, Reachable reduced before ∧ next reduced before = .ok [] ∧
      Relation.ReflTransGen (Edge graph) before state := by
  obtain ⟨x, ts, run, rfl⟩ := walks.reachable_iff.mp reachable
  rw [walks.next_eq_nil_iff reachable] at dead
  obtain ⟨kept, y, rest, keptRun, stuck, later⟩ := exists_dead_before stubborn run dead
  have reachable' : Reachable reduced (image y) :=
    walksReduced.reachable_iff.mpr ⟨y, kept, keptRun, rfl⟩
  refine ⟨image y, reachable', (walksReduced.next_eq_nil_iff reachable').mpr stuck, ?_⟩
  exact walks.reflTransGen_of_run later (walks.reachable_of_reduced walksReduced reachable')

/-- **The deadlocks are the same** unless the reduced graph has one that is none in the graph. -/
theorem deadlocks_agree_iff :
    (∀ state, (Reachable reduced state ∧ next reduced state = .ok []) ↔
        (Reachable graph state ∧ next graph state = .ok [])) ↔
      ∀ state, Reachable reduced state → next reduced state = .ok [] →
        next graph state = .ok [] := by
  constructor
  · intro agree state reachable dead
    exact ((agree state).mp ⟨reachable, dead⟩).2
  · intro true state
    refine ⟨fun ⟨reachable, dead⟩ => ?_, fun ⟨reachable, dead⟩ => ?_⟩
    · exact ⟨walks.reachable_of_reduced walksReduced reachable, true state reachable dead⟩
    · obtain ⟨before, reachable', dead', path⟩ :=
        walks.exists_deadlock_before walksReduced stubborn reachable dead
      -- nothing leaves the earlier deadlock, so it is the same one
      rcases path.cases_head with rfl | ⟨between, edge, _⟩
      · exact ⟨reachable', dead'⟩
      · cases (edge_iff (true before reachable' dead')).mp edge

/-- **Stubborn sets keep the deadlocks.** It is enough to fire the enabled members of a stubborn set
in each state, one of which is enabled if anything is. This is needed only of the states that are
reached and left nowhere. -/
theorem deadlock_iff
    (key : ∀ x, Reachable reduced (image x) → next reduced (image x) = .ok [] →
      ∀ t, sem.enabled x t → ∃ u, sem.enabled x u ∧ members x u)
    {state : Image} :
    (Reachable reduced state ∧ next reduced state = .ok []) ↔
      (Reachable graph state ∧ next graph state = .ok []) := by
  refine (walks.deadlocks_agree_iff walksReduced stubborn).mpr ?_ state
  intro state reachable dead
  obtain ⟨x, ts, run, rfl⟩ := walksReduced.reachable_iff.mp reachable
  have reachable' := walks.reachable_of_reduced walksReduced reachable
  refine (walks.next_eq_nil_iff reachable').mpr fun t enabled => ?_
  obtain ⟨u, uEnabled, member⟩ := key x reachable dead t enabled
  exact (walksReduced.next_eq_nil_iff reachable).mp dead u ⟨uEnabled, member⟩

end Reduced

end Walks

end Semantics

end StateSpace

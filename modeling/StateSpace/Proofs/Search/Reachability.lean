/-
**What there is to find in a graph.**

* `Explorable.Reached`, `Explorable.Reachable` — the states met from the initial one through
  expansions that succeed, with the number of steps.
* `Explorable.distance` — the least number of steps, and what it is along an edge
  (`Explorable.distance_le_succ`, `Explorable.exists_closer`).
* `Explorable.after` — a graph with what it remembers of some calls.
* `Explorable.Functional` — its answers depend on the state alone.
* `Explorable.Steady` — they do so as long as it is asked for reachable states, for each once. A
  search asks for nothing else, and this is all that is needed of the graph.
-/

import Mathlib.Order.Lattice.Nat
import StateSpace.Graph.Basic

namespace StateSpace

namespace Explorable

variable {G : Type} [Explorable G]

/-- The successors of a state of a graph. -/
def next (graph : G) (state : Image) : Except Failure (List Image) :=
  (successors graph state).1

/-- The edges that leave a state, none if its expansion fails. -/
def outgoing (graph : G) (state : Image) : List Image :=
  match next graph state with
  | .ok targets => targets
  | .error _ => []

/-- Whether a state has no successors. -/
def isDeadlock (graph : G) (state : Image) : Bool :=
  match next graph state with
  | .ok targets => targets.isEmpty
  | .error _ => false

theorem outgoing_eq {graph : G} {state : Image} {targets : List Image}
    (expands : next graph state = .ok targets) : outgoing graph state = targets := by
  rw [outgoing, expands]

theorem isDeadlock_iff {graph : G} {state : Image} :
    isDeadlock graph state = true ↔ next graph state = .ok [] := by
  unfold isDeadlock
  cases next graph state with
  | error failure => simp
  | ok targets => simp

/-! ### Reachable states -/

/-- The expansion of a state succeeds and leads to another one. -/
def Edge (graph : G) (state target : Image) : Prop :=
  ∃ targets, next graph state = .ok targets ∧ target ∈ targets

theorem edge_iff {graph : G} {state target : Image} {targets : List Image}
    (expands : next graph state = .ok targets) : Edge graph state target ↔ target ∈ targets := by
  constructor
  · rintro ⟨targets', expands', member⟩
    rw [expands, Except.ok.injEq] at expands'
    rw [expands']
    exact member
  · intro member
    exact ⟨targets, expands, member⟩

/-- **A state is met in so many steps** from the initial one. -/
inductive Reached (graph : G) : Nat → Image → Prop where
  | start {state : Image} : initial graph = .ok state → Reached graph 0 state
  | step {count : Nat} {state target : Image} :
    Reached graph count state → Edge graph state target → Reached graph (count + 1) target

/-- A state is met in some number of steps. -/
def Reachable (graph : G) (state : Image) : Prop :=
  ∃ count, Reached graph count state

section Reachable

variable {graph : G} {state target : Image}

theorem Reachable.start (starts : initial graph = .ok state) : Reachable graph state :=
  ⟨0, .start starts⟩

theorem Reachable.step (reachable : Reachable graph state) (edge : Edge graph state target) :
    Reachable graph target := by
  obtain ⟨count, reached⟩ := reachable
  exact ⟨count + 1, .step reached edge⟩

/-- A property of the initial state that is kept along edges is one of all reachable states. -/
theorem Reachable.induct (property : Image → Prop)
    (starts : ∀ state, initial graph = .ok state → property state)
    (steps : ∀ state target, Reachable graph state → property state → Edge graph state target →
      property target)
    (reachable : Reachable graph state) : property state := by
  obtain ⟨count, reached⟩ := reachable
  induction reached with
  | start begins => exact starts _ begins
  | step reached edge ih => exact steps _ _ ⟨_, reached⟩ ih edge

/-- States that have the initial one among them and are left by no edge are all reachable ones. -/
theorem Reachable.mem_of_closed {first : Image} {states : List Image}
    (starts : initial graph = .ok first) (known : first ∈ states)
    (closed : ∀ state ∈ states, ∀ target ∈ outgoing graph state, target ∈ states)
    (reachable : Reachable graph state) : state ∈ states := by
  refine reachable.induct (· ∈ states) (fun state begins => ?_) fun state target _ known edge => ?_
  · rw [starts, Except.ok.injEq] at begins
    exact begins ▸ known
  · obtain ⟨targets, expands, member⟩ := edge
    exact closed state known target (outgoing_eq expands ▸ member)

/-! ### Distance -/

/-- **The distance of a state**: the least number of steps in which it is met. -/
noncomputable def distance (graph : G) (state : Image) : Nat :=
  sInf {count | Reached graph count state}

theorem distance_le {count : Nat} (reached : Reached graph count state) :
    distance graph state ≤ count :=
  Nat.sInf_le reached

theorem reached_distance (reachable : Reachable graph state) :
    Reached graph (distance graph state) state :=
  Nat.sInf_mem reachable

theorem initial_of_distance_eq_zero (reachable : Reachable graph state)
    (zero : distance graph state = 0) : initial graph = .ok state := by
  have reached := reached_distance reachable
  rw [zero] at reached
  cases reached with
  | start begins => exact begins

/-- An edge leads at most one step further. -/
theorem distance_le_succ (reachable : Reachable graph state) (edge : Edge graph state target) :
    distance graph target ≤ distance graph state + 1 :=
  distance_le (.step (reached_distance reachable) edge)

/-- **A state that is not the initial one is entered from one that is closer by one.** -/
theorem exists_closer {count : Nat} (reachable : Reachable graph target)
    (far : distance graph target = count + 1) :
    ∃ state, Reachable graph state ∧ distance graph state = count ∧ Edge graph state target := by
  have reached := reached_distance reachable
  rw [far] at reached
  cases reached with
  | @step _ state _ before edge =>
    have near := distance_le before
    have further := distance_le_succ ⟨count, before⟩ edge
    exact ⟨state, ⟨count, before⟩, by omega, edge⟩

end Reachable

/-! ### Graphs that remember -/

/-- The graph after it was asked for the successors of some states. -/
def after (graph : G) (asked : List Image) : G :=
  asked.foldl (fun graph state => (successors graph state).2) graph

theorem after_append (graph : G) (asked more : List Image) :
    after graph (asked ++ more) = after (after graph asked) more :=
  List.foldl_append

/-- **The answers of a graph depend on the state alone**, whatever it was asked before. -/
structure Functional (graph : G) : Prop where
  successors : ∀ asked state, next (after graph asked) state = next graph state
  accepting : ∀ asked state, accepting (after graph asked) state = accepting graph state

/-- **The answers of a graph depend on the state alone** as long as it is asked for reachable
states, and for none of them twice. -/
structure Steady (graph : G) : Prop where
  successors : ∀ {asked : List Image} {state : Image}, (asked ++ [state]).Nodup →
    (∀ other ∈ asked ++ [state], Reachable graph other) →
    next (after graph asked) state = next graph state
  accepting : ∀ {asked : List Image} {state : Image}, (asked ++ [state]).Nodup →
    (∀ other ∈ asked ++ [state], Reachable graph other) →
    accepting (after graph asked) state = accepting graph state

/-- A graph that remembers nothing is one. -/
theorem Functional.of_fixed {graph : G}
    (fixed : ∀ state, (Explorable.successors graph state).2 = graph) : Functional graph := by
  have unchanged : ∀ asked, after graph asked = graph := by
    intro asked
    induction asked with
    | nil => rfl
    | cons state rest ih => rw [after, List.foldl_cons, fixed state]; exact ih
  exact ⟨fun asked state => by rw [unchanged], fun asked state => by rw [unchanged]⟩

theorem Functional.steady {graph : G} (functional : Functional graph) : Steady graph :=
  ⟨fun _ _ => functional.successors _ _, fun _ _ => functional.accepting _ _⟩

end Explorable

end StateSpace

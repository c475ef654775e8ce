/-
**Breadth-first search.**

* `Report` — what a search found.
* `Search` — a search under way. The discovered states are kept in the order of their discovery,
  and the first `report.states` of them have been looked at, so that the rest are the frontier.
* `Search.advance` — looks at the next state, or ends the search.
* `exploreWithin` — the whole search, if it ends within a number of rounds.
* `explore` — the search of a graph with a bound on its states, which is also one on the rounds.

The counters of a report are numbers without a bound, unlike the statistics of a reduced graph,
which are 64 bits wide and can overflow.
-/

import StateSpace.Graph.Basic
import StateSpace.Search.Visited

namespace StateSpace

/-- The bounds of a search. -/
structure Limits where
  /-- No state is discovered beyond so many. -/
  maxStates : Option Nat := none
deriving DecidableEq

/-- **What a search found.** -/
structure Report where
  /-- How many states were looked at. -/
  states : Nat := 0
  /-- How many edges were followed, repetitions included. -/
  transitions : Nat := 0
  /-- The states without successors, in the order of their discovery. -/
  deadlocks : Array Image := #[]
  /-- How many of the expanded states accept. -/
  accepting : Nat := 0
  /-- Whether a state was left out because of the ceiling. -/
  truncated : Bool := false
  /-- The state at which the search was told to stop. -/
  stoppedAt : Option Image := none
deriving DecidableEq

/-- **A search under way.** -/
structure Search (G : Type) where
  graph : G
  /-- The states met so far, in the order of their discovery. -/
  discovered : Array Image
  /-- The same states as a table. -/
  visited : Visited
  report : Report

/-- **How a search ended.** -/
structure Outcome (G : Type) where
  result : Except Failure Report
  /-- The states that were looked at, in order. -/
  looked : List Image
  /-- The graph with what it remembers of the search. -/
  graph : G

namespace Search

/-- A round of a search: it ends, or it goes on. -/
inductive Round (G : Type) where
  | ended (outcome : Outcome G)
  | goesOn (search : Search G)

variable {G : Type}

/-- The search that has met the initial state only. -/
def start (graph : G) (initial : Image) : Search G where
  graph := graph
  discovered := #[initial]
  visited := Visited.empty.insert initial
  report := {}

/-- How a search ends with some result. -/
def outcome (search : Search G) (result : Except Failure Report) : Outcome G where
  result := result
  looked := search.discovered.toList.take search.report.states
  graph := search.graph

/-- Whether the ceiling allows no further state. -/
def isFull (search : Search G) (limits : Limits) : Bool :=
  match limits.maxStates with
  | some ceiling => ceiling ≤ search.discovered.size
  | none => false

/-- **Follows an edge to a state.** -/
def follow (limits : Limits) (search : Search G) (state : Image) : Search G :=
  let report := { search.report with transitions := search.report.transitions + 1 }
  if search.visited.contains state then { search with report := report }
  else if search.isFull limits then { search with report := { report with truncated := true } }
  else
    { search with
      discovered := search.discovered.push state
      visited := search.visited.insert state
      report := report }

/-- The search after looking at one more state. -/
def looking (search : Search G) : Search G :=
  { search with report := { search.report with states := search.report.states + 1 } }

/-- The search after a state without successors. -/
def deadlocked (search : Search G) (state : Image) : Search G :=
  { search with report := { search.report with deadlocks := search.report.deadlocks.push state } }

variable [Explorable G]

/-- The search after counting a state that is about to be expanded. -/
def counted (search : Search G) (state : Image) : Search G :=
  if Explorable.accepting search.graph state then
    { search with report := { search.report with accepting := search.report.accepting + 1 } }
  else search

/-- Expands a state and follows its edges. -/
def expand (limits : Limits) (search : Search G) (state : Image) : Round G :=
  let (result, graph) := Explorable.successors search.graph state
  let search := { search with graph := graph }
  match result with
  | .error failure => .ended (search.outcome (.error failure))
  | .ok [] => .goesOn (search.deadlocked state)
  | .ok successors => .goesOn (successors.foldl (follow limits) search)

/-- **Looks at the next state**, or ends the search. -/
def advance (limits : Limits) (done : Nat → Image → Bool) (search : Search G) : Round G :=
  match search.discovered[search.report.states]? with
  | none => .ended (search.outcome (.ok search.report))
  | some state =>
    let search := search.looking
    if done search.report.states state then
      .ended (search.outcome (.ok { search.report with stoppedAt := some state }))
    else (search.counted state).expand limits state

/-- Runs a search to its end, if it ends within a number of rounds. -/
def run (limits : Limits) (done : Nat → Image → Bool) : Nat → Search G → Option (Outcome G)
  | 0, _ => none
  | rounds + 1, search =>
    match search.advance limits done with
    | .ended outcome => some outcome
    | .goesOn search => run limits done rounds search

end Search

/-- **Explores a graph breadth first** from its initial state, if the search ends within a number
of rounds. The search stops where `done` holds of the number of a state, counted from one, and of
the state. -/
def exploreWithin {G : Type} [Explorable G] (rounds : Nat) (graph : G) (limits : Limits)
    (done : Nat → Image → Bool) : Option (Outcome G) :=
  match Explorable.initial graph with
  | .error failure => some ⟨.error failure, [], graph⟩
  | .ok initial => Search.run limits done rounds (Search.start graph initial)

/-- Explores a graph of at most `bound` states: a round for each, and one to find that no state is
left. -/
def explore {G : Type} [Explorable G] (bound : Nat) (graph : G) (limits : Limits)
    (done : Nat → Image → Bool) : Option (Outcome G) :=
  exploreWithin (bound + 1) graph limits done

end StateSpace

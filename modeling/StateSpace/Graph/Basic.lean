/-
**State graphs.**

* `Explorable` — what a search needs of a system: a state to start from, the successors of a state,
  which states accept, and states as text. A graph may remember something of the calls for
  successors; it is handed on from call to call.
* `Interpreted` — the graph of an interpreter, with a reducer if only reduced sets are to be
  expanded.
* `Interpreted.expand` — the expansion of a state, and the graph with the reducer's statistics
  brought up to date.
-/

import StateSpace.Expansion
import StateSpace.Reduction.Reducer

namespace StateSpace

/-- **What a search needs of a system.** -/
class Explorable (G : Type) where
  initial : G → Except Failure Image
  /-- The successors of a state, and the graph with what it remembers of the call. -/
  successors : G → Image → Except Failure (List Image) × G
  accepting : G → Image → Bool := fun _ _ => false
  format : G → Image → String := fun _ state => state.dump

/-- **The graph of an interpreter.** -/
structure Interpreted where
  interpreter : Interpreter
  policy : Policy
  reducer : Option Reducer

namespace Interpreted

/-- The graph in which every enabled transition fires. -/
def full (interpreter : Interpreter) (policy : Policy) : Interpreted :=
  ⟨interpreter, policy, none⟩

/-- The graph in which only reduced sets fire, if the description can be analysed. -/
def reduced (interpreter : Interpreter) (policy : Policy) (options : Options) :
    Except Failure Interpreted := do
  let reducer ← Reducer.ofSystem interpreter.system options
  return ⟨interpreter, policy, some reducer⟩

/-- The statistics of the reducer. -/
def stats (g : Interpreted) : Option Stats :=
  g.reducer.map Reducer.stats

/-- The entries of a list whose flag is set. -/
def kept (enabled : List Nat) (flags : List Bool) : List Nat :=
  (enabled.zip flags).filterMap fun (t, keep) => if keep then some t else none

/-- What is known of the guards in a state; a guard that cannot be read there is unknown. -/
def oracle (g : Interpreted) (state : Image) : Oracle := fun guard =>
  match g.interpreter.guardHolds state.bytes guard with
  | .ok answer => answer
  | .error _ => none

/-- Breaks off if one of some guards cannot be read in a state. -/
def requireGuards (g : Interpreted) (state : Image) : List Nat → Except Abort Unit
  | [] => .ok ()
  | guard :: rest => do
    let _ ← g.interpreter.guardHolds state.bytes guard
    g.requireGuards state rest

/-- The transitions that fire in a state, and the reducer after it was asked for them. -/
def chosen (g : Interpreted) (state : Image) : Except Failure (List Nat × Option Reducer) := do
  let enabled ← orAbort (g.interpreter.enabled state.bytes)
  match g.reducer with
  | none => return (enabled, none)
  | some reducer =>
    let holds := g.oracle state
    let (flags, reducer) ← reducer.reduce enabled holds
    orAbort (g.requireGuards state (reducer.consulted enabled holds))
    return (kept enabled flags, some reducer)

/-- **The expansion of a state**, and the graph with its statistics brought up to date. -/
def expand (g : Interpreted) (state : Image) : Except Failure Expansion × Interpreted :=
  match g.chosen state with
  | .error failure => (.error failure, g)
  | .ok (transitions, reducer) =>
    (g.interpreter.execute g.policy state transitions, { g with reducer := reducer })

instance : Explorable Interpreted where
  initial g := g.interpreter.initialImage
  successors g state :=
    let (result, graph) := g.expand state
    (result.map Expansion.states, graph)
  accepting g state := g.interpreter.accepting state.bytes
  format g state := g.interpreter.format state.bytes

end Interpreted

end StateSpace

/-
**Graphs given by their edges.**

* `Listed` — a graph whose edges are listed. Of several lists for one state the last one counts, a
  state without a list has no successors, and the expansion of certain states fails.
-/

import StateSpace.Graph.Basic

namespace StateSpace

/-- **A graph given by its edges.** -/
structure Listed where
  initial : Option (List UInt8)
  edges : List (List UInt8 × List (List UInt8))
  failing : List (List UInt8)

namespace Listed

/-- The listed successors of a state. -/
def targets (g : Listed) (state : Image) : List Image :=
  match g.edges.reverse.find? fun edge => edge.1 == state.bytes with
  | some (_, targets) => targets.map Image.ofBytes
  | none => []

/-- The successors of a state, unless its expansion fails. -/
def expand (g : Listed) (state : Image) : Except Failure (List Image) :=
  if g.failing.contains state.bytes then
    let image := state.dump
    .error (.error (.malformedSystem s!"graph failure at {image}"))
  else .ok (g.targets state)

/-- A bound on the number of states: every state but the initial one is listed as a successor. -/
def stateBound (g : Listed) : Nat :=
  1 + (g.edges.flatMap Prod.snd).length

instance : Explorable Listed where
  initial g :=
    match g.initial with
    | some bytes => .ok (.ofBytes bytes)
    | none => .error (.error .noInitialState)
  successors g state := (g.expand state, g)

end Listed

end StateSpace

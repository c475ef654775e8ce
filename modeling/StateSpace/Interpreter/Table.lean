/-
**Systems given by tables.**

* `Table` — a system whose states are listed, each with what is enabled in it, which of its guards
  hold and what its transitions lead to. A state that is not listed has nothing enabled and leads
  nowhere.
* `Table.interpreter` — the interpreter of a table.
-/

import StateSpace.Interpreter.Basic
import StateSpace.Text.Hex

namespace StateSpace

namespace Table

/-- What a transition leads to. -/
structure Step where
  transition : Nat
  event : Event

/-- What is listed of a state. -/
structure Entry where
  image : List UInt8
  enabled : List Nat
  guards : List (Option Bool)
  steps : List Step
  accepting : Bool

end Table

/-- **A system given by a list of its states.** -/
structure Table where
  system : TransitionSystem
  initial : Option (List UInt8)
  stateSize : Option Nat
  ignoresStop : Bool
  entries : List Table.Entry

namespace Table

/-- What is listed of a state; the first entry counts. -/
def entry? (table : Table) (image : List UInt8) : Option Entry :=
  table.entries.find? fun entry => entry.image == image

/-- The events of firing some transitions, in the order of the transitions and then of the
listing. -/
def events (entry : Entry) (transitions : List Nat) : List (Except Abort Event) :=
  transitions.flatMap fun t =>
    (entry.steps.filter fun step => step.transition == t).map fun step => .ok step.event

/-- The account of a fault. -/
def account (fault : Fault) : String :=
  let code := fault.code.code.toNat
  match fault.transition with
  | some t => s!"fault {code} in transition {t}"
  | none => s!"fault {code}"

/-- A bound on the number of states: every state but the initial one is the successor of some
step. -/
def stateBound (table : Table) : Nat :=
  1 + (table.entries.flatMap Entry.steps).length

/-- **The interpreter of a table.** -/
def interpreter (table : Table) : Interpreter where
  system := table.system
  initial := .pure (.ok table.initial)
  enabled image := .ok (((table.entry? image).map Entry.enabled).getD [])
  report image transitions :=
    ((table.entry? image).map fun entry => events entry transitions).getD []
  ignoresStop := table.ignoresStop
  account := account
  stateSize raw := table.stateSize.getD raw.length
  format image := "table:" ++ Hex.ofBytes image
  guardHolds image guard := .ok ((table.entry? image).bind fun entry => entry.guards[guard]?).join
  accepting image := ((table.entry? image).map Entry.accepting).getD false

end Table

end StateSpace

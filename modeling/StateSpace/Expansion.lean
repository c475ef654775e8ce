/-
**Expanding a state.**

* `Policy` — which faults are tolerated: none, or assertion faults only.
* `Expansion` — the successors of a state in the order of their report, the firing behind each,
  and the faults that were tolerated.
* `Interpreter.execute` — fires some transitions. A fault that is not tolerated ends the execution
  and is its error; of several, which only an interpreter that ignores being stopped reports, the
  last one counts.
-/

import StateSpace.Image.Basic
import StateSpace.Interpreter.Basic

namespace StateSpace

/-- **Which faults are tolerated.** -/
inductive Policy where
  /-- None. -/
  | strict
  /-- Assertion faults. -/
  | lenient
deriving DecidableEq

/-- Whether a fault of some class is tolerated. -/
def Policy.tolerates (policy : Policy) (code : FaultCode) : Bool :=
  decide (policy = .lenient ∧ code = .assertion)

/-- **What expanding a state gives.** -/
structure Expansion where
  states : List Image
  /-- The firing behind each state. -/
  firings : List Firing
  /-- The faults that were tolerated. -/
  faults : List RuntimeError
deriving DecidableEq

namespace Event

/-- The fault of an event that is not tolerated. -/
def raised? (policy : Policy) : Event → Option Fault
  | .fault raised => if policy.tolerates raised.code then none else some raised
  | .successor _ _ => none

/-- The fault of an event that is tolerated. -/
def tolerated? (policy : Policy) : Event → Option Fault
  | .fault raised => if policy.tolerates raised.code then some raised else none
  | .successor _ _ => none

/-- The bytes of a successor. -/
def raw? : Event → Option (List UInt8)
  | .successor raw _ => some raw
  | .fault _ => none

/-- The firing behind a successor. -/
def firing? : Event → Option Firing
  | .successor _ firing => some firing
  | .fault _ => none

end Event

namespace Interpreter

/-- The image of reported bytes: those that belong to the state. -/
def image (i : Interpreter) (raw : List UInt8) : Image :=
  .ofBytes (raw.take (i.stateSize raw))

/-- A fault with the interpreter's account of it. -/
def runtimeError (i : Interpreter) (fault : Fault) : RuntimeError :=
  ⟨fault, i.account fault⟩

/-- The state to start from. -/
def initialImage (i : Interpreter) : Except Failure Image := do
  match ← orAbort i.initial.get with
  | some raw => return i.image raw
  | none => .error (.error .noInitialState)

/-- The expansion that some events amount to. -/
def expansion (i : Interpreter) (policy : Policy) (events : List Event) : Expansion where
  states := (events.filterMap Event.raw?).map i.image
  firings := events.filterMap Event.firing?
  faults := (events.filterMap (Event.tolerated? policy)).map i.runtimeError

/-- **Expands a state by firing some transitions.** -/
def execute (i : Interpreter) (policy : Policy) (state : Image) (transitions : List Nat) :
    Except Failure Expansion := do
  let raises (event : Event) : Bool := (event.raised? policy).isSome
  let events ← orAbort (i.delivered raises state.bytes transitions)
  match (events.filterMap (Event.raised? policy)).getLast? with
  | some fault => .error (.error (.runtime (i.runtimeError fault)))
  | none => .ok (i.expansion policy events)

/-- Expands a state by firing all its enabled transitions. -/
def successors (i : Interpreter) (policy : Policy) (state : Image) : Except Failure Expansion := do
  let enabled ← orAbort (i.enabled state.bytes)
  i.execute policy state enabled

end Interpreter

end StateSpace

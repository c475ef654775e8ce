/-
**Interpreters.**

* `Event` — what executing a transition reports: a successor or a fault.
* `Interpreter` — a loaded system that can be executed state by state. It reports the events of an
  execution in order; a report may break off, and it ends early where its reader asks to stop,
  unless the interpreter ignores that.
* `Interpreter.delivered` — the events that reach a reader who asks to stop after certain ones.
* `Interpreter.recorded` — the events that reach a reader who wants a certain number of them.
-/

import StateSpace.Error
import StateSpace.TransitionSystem

namespace StateSpace

/-- **What an execution reports.** -/
inductive Event where
  /-- A successor, whose bytes may be followed by others that do not belong to it. -/
  | successor (raw : List UInt8) (firing : Firing)
  | fault (fault : Fault)
deriving DecidableEq

/-- **A loaded system.** Calls on an image that is too short for them break off. -/
structure Interpreter where
  /-- Its description. -/
  system : TransitionSystem
  /-- The bytes of the initial state, if there is one. They are made when they are asked for. -/
  initial : Thunk (Except Abort (Option (List UInt8)))
  /-- The transitions enabled in a state. -/
  enabled : List UInt8 → Except Abort (List Nat)
  /-- The events of firing some transitions from a state. -/
  report : List UInt8 → List Nat → List (Except Abort Event)
  /-- Whether it goes on reporting after it was asked to stop. -/
  ignoresStop : Bool
  /-- The account of a fault. -/
  account : Fault → String
  /-- How many bytes of a reported successor belong to it. -/
  stateSize : List UInt8 → Nat
  /-- A state as text. -/
  format : List UInt8 → String
  /-- Whether a guard holds in a state, if that can be told. -/
  guardHolds : List UInt8 → Nat → Except Abort (Option Bool)
  /-- Whether a state is accepting. -/
  accepting : List UInt8 → Bool

namespace Interpreter

/-- The interpreter without its knowledge of guards and of accepting states. -/
def bare (i : Interpreter) : Interpreter :=
  { i with guardHolds := fun _ _ => .ok none, accepting := fun _ => false }

/-- The events up to and including the first one after which the reader asks to stop. -/
def cutAfter (stop : Event → Bool) : List (Except Abort Event) → Except Abort (List Event)
  | [] => .ok []
  | .error cause :: _ => .error cause
  | .ok event :: rest =>
    if stop event then .ok [event] else (cutAfter stop rest).map (event :: ·)

/-- **The events that reach a reader who asks to stop after certain ones.** -/
def delivered (i : Interpreter) (stop : Event → Bool) (image : List UInt8)
    (transitions : List Nat) : Except Abort (List Event) :=
  cutAfter (fun event => !i.ignoresStop && stop event) (i.report image transitions)

/-- The events that reach a reader who asks to stop as soon as it has `limit` of them, if there is
a limit. -/
def recorded (i : Interpreter) (limit : Option Nat) (image : List UInt8)
    (transitions : List Nat) : Except Abort (List Event) :=
  let events := i.report image transitions
  match limit, i.ignoresStop with
  | some count, false => cutAfter (fun _ => false) (events.take (Nat.max count 1))
  | _, _ => cutAfter (fun _ => false) events

end Interpreter

end StateSpace

/-
**Which descriptions are well formed.**

* `TransitionSystem.violations` — everything wrong with a description, in the order in which it is
  looked for: a missing process, the guards by number (reads before enablers), the transitions by
  number (missing tags, tags, reads, writes, guards), and the exclusive pairs by position (first
  guard, second guard, a guard paired with itself).
* `refuseFirst` — the first of some violations, if there is one.
-/

import StateSpace.Error
import StateSpace.TransitionSystem

namespace StateSpace

/-- The complaints about those of some numbers that do not lie below a bound. -/
def outOfBounds (what : String) (bound : Nat) (complaint : String → Error) (numbers : List Nat) :
    List Error :=
  (numbers.filter fun number => bound ≤ number).map fun number =>
    complaint s!"{what} {number} out of range 0..{bound}"

/-- Succeeds unless something is wrong, and otherwise fails with the first complaint. -/
def refuseFirst : List Error → Except Error Unit
  | [] => .ok ()
  | first :: _ => .error first

namespace TransitionSystem

/-- A system with transitions has a process. -/
def processViolations (s : TransitionSystem) : List Error :=
  if 0 < s.transitions.size ∧ s.processCount = 0 then
    let transitions := s.transitions.size
    [.malformedSystem s!"{transitions} transitions but no process"]
  else []

/-- A guard reads variables and is enabled by transitions that exist. -/
def guardViolations (s : TransitionSystem) (number : Nat) (guard : Guard) : List Error :=
  outOfBounds "variable" s.variableCount (.malformedGuard number) guard.reads
    ++ outOfBounds "transition" s.transitions.size (.malformedGuard number)
      (guard.enablers.getD [])

/-- A transition has a process tag, and its tags, reads, writes and guards exist. -/
def transitionViolations (s : TransitionSystem) (number : Nat) (transition : Transition) :
    List Error :=
  (if transition.processes.isEmpty then [.malformedTransition number "no process tag"] else [])
    ++ outOfBounds "process" s.processCount (.malformedTransition number) transition.processes
    ++ outOfBounds "variable" s.variableCount (.malformedTransition number) transition.reads
    ++ outOfBounds "variable" s.variableCount (.malformedTransition number) transition.writes
    ++ outOfBounds "guard" s.guards.size (.malformedTransition number) transition.guards

/-- The complaint about an exclusive pair. -/
def pairComplaint (reason : String) : Error :=
  .malformedSystem s!"exclusive pair: {reason}"

/-- An exclusive pair consists of two different guards that exist. -/
def pairViolations (s : TransitionSystem) (pair : Nat × Nat) : List Error :=
  outOfBounds "guard" s.guards.size pairComplaint [pair.1, pair.2]
    ++ (if pair.1 = pair.2 then [.malformedGuard pair.1 "declared exclusive with itself"] else [])

/-- **Everything wrong with a description**, in the order in which it is looked for. -/
def violations (s : TransitionSystem) : List Error :=
  s.processViolations
    ++ s.guards.toList.zipIdx.flatMap (fun (guard, number) => s.guardViolations number guard)
    ++ s.transitions.toList.zipIdx.flatMap (fun (transition, number) =>
      s.transitionViolations number transition)
    ++ s.exclusiveGuards.flatMap s.pairViolations

end TransitionSystem

end StateSpace

/-
**Errors.**

* `Error` — the causes for which loading a system or exploring it is refused, with their texts in
  `Error.message`.
* `Failure` — an error of the domain, or a call that broke off.
-/

import StateSpace.Abort
import StateSpace.Fault

namespace StateSpace

/-- A fault that was not tolerated, with the interpreter's account of it. -/
structure RuntimeError where
  fault : Fault
  account : String
deriving DecidableEq

/-- The fault and its account in one line. -/
def RuntimeError.message (error : RuntimeError) : String :=
  let code := error.fault.code.code.toNat
  let process := error.fault.process
  let pc := error.fault.pc.toNat
  let account := error.account
  s!"runtime error ({code}) in process {process} at pc {pc}: {account}"

/-- **Why a system cannot be loaded or explored.** -/
inductive Error where
  /-- There is no state to start from. -/
  | noInitialState
  /-- The description of the system is unusable as a whole. -/
  | malformedSystem (reason : String)
  /-- A transition refers to something that does not exist. -/
  | malformedTransition (transition : Nat) (reason : String)
  /-- A guard refers to something that does not exist. -/
  | malformedGuard (guard : Nat) (reason : String)
  /-- A fault was raised. -/
  | runtime (error : RuntimeError)
  /-- An enabled list names a transition that the system does not have. -/
  | transitionOutOfRange (transition transitions : Nat)
deriving DecidableEq

/-- The text of an error. -/
def Error.message : Error → String
  | .noInitialState => "interpreter reports no initial state"
  | .malformedSystem reason => s!"malformed system: {reason}"
  | .malformedTransition transition reason => s!"malformed transition {transition}: {reason}"
  | .malformedGuard guard reason => s!"malformed guard {guard}: {reason}"
  | .runtime error => error.message
  | .transitionOutOfRange transition transitions =>
    s!"transition {transition} out of range (system has {transitions})"

/-- **Why a call gave no value.** -/
inductive Failure where
  | error (cause : Error)
  | abort (cause : Abort)
deriving DecidableEq

/-- Passes an error of the domain on. -/
def orError {α : Type} : Except Error α → Except Failure α
  | .ok value => .ok value
  | .error cause => .error (.error cause)

/-- Passes a broken-off call on. -/
def orAbort {α : Type} : Except Abort α → Except Failure α
  | .ok value => .ok value
  | .error cause => .error (.abort cause)

end StateSpace

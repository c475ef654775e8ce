/-
**Faults.**

* `FaultCode` — the class of a fault. Three classes have a number of their own, all others are
  known by theirs.
* `Fault` — a fault with the process, the program counter and the transition behind it.
* `Firing` — the transition and the process behind a successor.
-/

namespace StateSpace

/-- **The class of a fault.** -/
inductive FaultCode where
  /-- An assertion of the system does not hold. -/
  | assertion
  | divisionByZero
  | invalidAccess
  | other (code : UInt32)
deriving DecidableEq

/-- The number of a class. -/
def FaultCode.code : FaultCode → UInt32
  | .assertion => 9
  | .divisionByZero => 4
  | .invalidAccess => 6
  | .other code => code

/-- The class that a number stands for. -/
def FaultCode.ofCode (code : UInt32) : FaultCode :=
  if code = 9 then .assertion
  else if code = 4 then .divisionByZero
  else if code = 6 then .invalidAccess
  else .other code

/-- The name of a class. -/
def FaultCode.name : FaultCode → String
  | .assertion => "Assertion"
  | .divisionByZero => "DivisionByZero"
  | .invalidAccess => "InvalidAccess"
  | .other code =>
    let number := code.toNat
    s!"Other({number})"

/-- **A fault raised while a transition was executed.** -/
structure Fault where
  code : FaultCode
  /-- The process at fault. -/
  process : Nat
  /-- Where that process stood. -/
  pc : UInt32
  transition : Option Nat
deriving DecidableEq

/-- **What fired to reach a successor.** -/
structure Firing where
  transition : Nat
  process : Nat
deriving DecidableEq

end StateSpace

/-
**Programs of guarded commands.**

* `Program` — processes that move between locations and share byte variables. Every process and
  every variable starts at zero.
* `Command` — a step of one process. It is enabled where its process stands at `source` and its
  guard holds. It fails where its forbidden binding holds; otherwise it sets a variable and moves
  its process to `target`.
* `Program.violations` — the commands that name a process, a location, a variable or a value
  outside the program.
-/

import StateSpace.Error

namespace StateSpace

/-- A shared variable, known by its number, and a value. -/
structure Binding where
  index : Nat
  value : UInt8
deriving DecidableEq

/-- **A guarded command of one process.** -/
structure Command where
  process : Nat
  source : UInt8
  target : UInt8
  /-- What has to hold for the command to be enabled. -/
  guard : Option Binding
  /-- What the command sets. -/
  update : Option Binding
  /-- What must not hold when the command fires. -/
  forbidden : Option Binding
deriving DecidableEq

/-- **Processes over shared variables.** -/
structure Program where
  processCount : Nat
  /-- The number of locations of each process. -/
  locationCount : UInt8
  variableCount : Nat
  /-- The number of values of each variable. -/
  domain : UInt8
  commands : Array Command
deriving DecidableEq

/-- The bindings that a command mentions. -/
def Command.bindings (command : Command) : List Binding :=
  command.guard.toList ++ command.update.toList ++ command.forbidden.toList

namespace Program

/-- Whether a binding names a variable and a value of the program. -/
def admits (p : Program) (binding : Binding) : Bool :=
  decide (binding.index < p.variableCount) && decide (binding.value < p.domain)

/-- What is wrong with a command, in the order in which it is looked for. -/
def commandViolations (p : Program) (number : Nat) (command : Command) : List Error :=
  (if p.processCount ≤ command.process then [.malformedTransition number "unknown process"]
    else [])
    ++ (if p.locationCount ≤ command.source ∨ p.locationCount ≤ command.target then
        [.malformedTransition number "unknown location"]
      else [])
    ++ (if command.bindings.all p.admits then []
      else [.malformedTransition number "binding out of range"])

/-- **Everything wrong with the commands**, in their order. -/
def violations (p : Program) : List Error :=
  p.commands.toList.zipIdx.flatMap fun (command, number) => p.commandViolations number command

end Program

end StateSpace

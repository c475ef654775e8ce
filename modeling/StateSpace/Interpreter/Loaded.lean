/-
**Loaded systems.**

* `Loaded` — a system that can be executed: a table, or the model of a program.
* `Loaded.interpreter` — what executes it.
* `Loaded.stateBound` — a bound on the number of its states, and so on the rounds of a search.
-/

import StateSpace.Interpreter.Table
import StateSpace.Program.Model

namespace StateSpace

/-- **A system that can be executed.** -/
inductive Loaded where
  | table (table : Table)
  | model (model : Model)

namespace Loaded

/-- What executes the system. -/
def interpreter : Loaded → Interpreter
  | .table listing => listing.interpreter
  | .model checked => checked.interpreter

/-- A bound on the number of states. -/
def stateBound : Loaded → Nat
  | .table listing => listing.stateBound
  | .model checked => checked.program.stateBound

end Loaded

end StateSpace

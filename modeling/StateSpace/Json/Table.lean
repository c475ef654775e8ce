/-
**Tables of states as JSON.**

* `Table.ofJson?` — reads a table. What is left out of an entry is empty or false, and a successor
  for which no process is given belongs to the first one; null stands for none of these.
* `Fault.ofNumberedJson?` — reads a fault whose class is given by its number.
-/

import StateSpace.Interpreter.Table
import StateSpace.Json.TransitionSystem

namespace StateSpace

/-- Reads a fault whose class is given by its number. -/
def Fault.ofNumberedJson? (json : Json) : Option Fault := do
  match ← json.record? ["code", "pid", "pc", "transition"] with
  | [code, process, pc, transition] =>
    let code ← code.word32?
    let process ← process.index?
    let pc ← pc.word32?
    let transition ← transition.nullable? Json.index?
    return ⟨.ofCode code, process, pc, transition⟩
  | _ => none

/-- Reads a truth value that may be unknown. -/
def Json.truth? (json : Json) : Option (Option Bool) :=
  json.nullable? Json.bool?

namespace Table

/-- Reads what a transition leads to: a fault, or else a successor. -/
def Step.ofJson? (json : Json) : Option Step := do
  match ← json.recordOr? [("t", .null), ("process", .nat 0), ("raw", .null), ("fault", .null)] with
  | [transition, process, raw, fault] =>
    let transition ← transition.index?
    let process ← process.index?
    let raw ← raw.nullable? Json.bytes?
    let fault ← fault.nullable? Fault.ofNumberedJson?
    match fault, raw with
    | some fault, _ => return ⟨transition, .fault fault⟩
    | none, some raw => return ⟨transition, .successor raw ⟨transition, process⟩⟩
    | none, none => none
  | _ => none

/-- Reads what is listed of a state. -/
def Entry.ofJson? (json : Json) : Option Entry := do
  let declared :=
    [("image", .null), ("enabled", .arr []), ("guards", .arr []), ("steps", .arr []),
      ("accepting", .bool false)]
  match ← json.recordOr? declared with
  | [image, enabled, guards, steps, accepting] =>
    let image ← image.bytes?
    let enabled ← enabled.indices?
    let guards ← guards.list? Json.truth?
    let steps ← steps.list? Step.ofJson?
    let accepting ← accepting.bool?
    return ⟨image, enabled, guards, steps, accepting⟩
  | _ => none

/-- **Reads a table.** -/
def ofJson? (json : Json) : Option Table := do
  let declared :=
    [("system", .null), ("initial", .null), ("state_size", .null), ("ignore_stop", .bool false),
      ("states", .arr [])]
  match ← json.recordOr? declared with
  | [system, initial, stateSize, ignoresStop, entries] =>
    let system ← TransitionSystem.ofJson? system
    let initial ← initial.nullable? Json.bytes?
    let stateSize ← stateSize.nullable? Json.index?
    let ignoresStop ← ignoresStop.bool?
    let entries ← entries.list? Entry.ofJson?
    return ⟨system, initial, stateSize, ignoresStop, entries⟩
  | _ => none

end Table

end StateSpace

/-
**Descriptions, faults and errors as JSON.**

Each type has a reader `ofJson?` and a writer `toJson`; the writer lists the fields in the order of
their declaration.
-/

import StateSpace.Error
import StateSpace.Json.Decode
import StateSpace.TransitionSystem

namespace StateSpace

namespace Transition

/-- Reads a transition. -/
def ofJson? (json : Json) : Option Transition := do
  match ← json.record? ["label", "processes", "reads", "writes", "guards"] with
  | [label, processes, reads, writes, guards] =>
    let label ← label.text?
    let processes ← processes.indices?
    let reads ← reads.indices?
    let writes ← writes.indices?
    let guards ← guards.indices?
    return ⟨label, processes, reads, writes, guards⟩
  | _ => none

/-- Writes a transition. -/
def toJson (t : Transition) : Json :=
  .obj [("label", .str t.label), ("processes", .nats t.processes), ("reads", .nats t.reads),
    ("writes", .nats t.writes), ("guards", .nats t.guards)]

end Transition

namespace Guard

/-- Reads a guard. -/
def ofJson? (json : Json) : Option Guard := do
  match ← json.record? ["reads", "enablers"] with
  | [reads, enablers] =>
    let reads ← reads.indices?
    let enablers ← enablers.nullable? Json.indices?
    return ⟨reads, enablers⟩
  | _ => none

/-- Writes a guard. -/
def toJson (g : Guard) : Json :=
  .obj [("reads", .nats g.reads), ("enablers", .orNull .nats g.enablers)]

end Guard

namespace TransitionSystem

/-- Reads a description. -/
def ofJson? (json : Json) : Option TransitionSystem := do
  let names := ["variables", "processes", "transitions", "guards", "exclusive_guards"]
  match ← json.record? names with
  | [variableCount, processes, transitions, guards, exclusive] =>
    let variableCount ← variableCount.index?
    let processes ← processes.index?
    let transitions ← transitions.list? Transition.ofJson?
    let guards ← guards.list? Guard.ofJson?
    let exclusive ← exclusive.list? (Json.pair? Json.index?)
    return ⟨variableCount, processes, transitions.toArray, guards.toArray, exclusive⟩
  | _ => none

/-- Writes a description. -/
def toJson (s : TransitionSystem) : Json :=
  .obj [("variables", .nat s.variableCount), ("processes", .nat s.processCount),
    ("transitions", .arr (s.transitions.toList.map Transition.toJson)),
    ("guards", .arr (s.guards.toList.map Guard.toJson)),
    ("exclusive_guards", .arr (s.exclusiveGuards.map fun pair => .nats [pair.1, pair.2]))]

end TransitionSystem

namespace FaultCode

/-- Reads the class of a fault. -/
def ofJson? (json : Json) : Option FaultCode := do
  match ← json.variant? with
  | ("Assertion", .null) => return .assertion
  | ("DivisionByZero", .null) => return .divisionByZero
  | ("InvalidAccess", .null) => return .invalidAccess
  | ("Other", code) => return .other (← code.word32?)
  | _ => none

/-- Writes the class of a fault. -/
def toJson : FaultCode → Json
  | .other code => .obj [("Other", .nat code.toNat)]
  | code => .str code.name

end FaultCode

namespace Fault

/-- Reads a fault. -/
def ofJson? (json : Json) : Option Fault := do
  match ← json.record? ["code", "pid", "pc", "transition"] with
  | [code, process, pc, transition] =>
    let code ← FaultCode.ofJson? code
    let process ← process.index?
    let pc ← pc.word32?
    let transition ← transition.nullable? Json.index?
    return ⟨code, process, pc, transition⟩
  | _ => none

/-- Writes a fault. -/
def toJson (f : Fault) : Json :=
  .obj [("code", f.code.toJson), ("pid", .nat f.process), ("pc", .nat f.pc.toNat),
    ("transition", .orNull .nat f.transition)]

end Fault

namespace Firing

/-- Reads a firing. -/
def ofJson? (json : Json) : Option Firing := do
  match ← json.record? ["transition", "process"] with
  | [transition, process] =>
    let transition ← transition.index?
    let process ← process.index?
    return ⟨transition, process⟩
  | _ => none

/-- Writes a firing. -/
def toJson (f : Firing) : Json :=
  .obj [("transition", .nat f.transition), ("process", .nat f.process)]

end Firing

namespace RuntimeError

/-- Reads a fault with its account. -/
def ofJson? (json : Json) : Option RuntimeError := do
  match ← json.record? ["fault", "message"] with
  | [fault, account] =>
    let fault ← Fault.ofJson? fault
    let account ← account.text?
    return ⟨fault, account⟩
  | _ => none

/-- Writes a fault with its account. -/
def toJson (e : RuntimeError) : Json :=
  .obj [("fault", e.fault.toJson), ("message", .str e.account)]

end RuntimeError

namespace Error

/-- The name of the kind of an error. -/
def kind : Error → String
  | .noInitialState => "NoInitialState"
  | .malformedSystem _ => "MalformedSystem"
  | .malformedTransition _ _ => "MalformedTransition"
  | .malformedGuard _ _ => "MalformedGuard"
  | .runtime _ => "Runtime"
  | .transitionOutOfRange _ _ => "TransitionOutOfRange"

/-- A number and a reason. -/
def numbered? (name : String) (content : Json) : Option (Nat × String) := do
  match ← content.record? [name, "reason"] with
  | [number, reason] =>
    let number ← number.index?
    let reason ← reason.text?
    return (number, reason)
  | _ => none

/-- Reads an error. -/
def ofJson? (json : Json) : Option Error := do
  match ← json.variant? with
  | ("NoInitialState", .null) => return .noInitialState
  | ("MalformedSystem", content) =>
    match ← content.record? ["reason"] with
    | [reason] => return .malformedSystem (← reason.text?)
    | _ => none
  | ("MalformedTransition", content) =>
    let (number, reason) ← numbered? "transition" content
    return .malformedTransition number reason
  | ("MalformedGuard", content) =>
    let (number, reason) ← numbered? "guard" content
    return .malformedGuard number reason
  | ("Runtime", content) => return .runtime (← RuntimeError.ofJson? content)
  | ("TransitionOutOfRange", content) =>
    match ← content.record? ["transition", "transitions"] with
    | [transition, transitions] =>
      let transition ← transition.index?
      let transitions ← transitions.index?
      return .transitionOutOfRange transition transitions
    | _ => none
  | _ => none

/-- The content of an error, null if it has none. -/
def content : Error → Json
  | .noInitialState => .null
  | .malformedSystem reason => .obj [("reason", .str reason)]
  | .malformedTransition transition reason =>
    .obj [("transition", .nat transition), ("reason", .str reason)]
  | .malformedGuard guard reason => .obj [("guard", .nat guard), ("reason", .str reason)]
  | .runtime error => error.toJson
  | .transitionOutOfRange transition transitions =>
    .obj [("transition", .nat transition), ("transitions", .nat transitions)]

/-- Writes an error. -/
def toJson (e : Error) : Json :=
  match e with
  | .noInitialState => .str e.kind
  | _ => .obj [(e.kind, e.content)]

end Error

end StateSpace

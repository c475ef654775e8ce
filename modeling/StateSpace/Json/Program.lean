/-
**Programs as JSON.**

* `ofJson?` and `toJson` — readers and writers of bindings, commands, programs and parameters.
* `Generated` — a drawn program with its parameters and the times at which drawing it began and
  ended.
-/

import StateSpace.Json.Decode
import StateSpace.Program.Draw
import StateSpace.Time

namespace StateSpace

namespace Binding

/-- Reads a binding. -/
def ofJson? (json : Json) : Option Binding := do
  match ← json.record? ["variable", "value"] with
  | [index, value] =>
    let index ← index.index?
    let value ← value.byte?
    return ⟨index, value⟩
  | _ => none

/-- Writes a binding. -/
def toJson (b : Binding) : Json :=
  .obj [("variable", .nat b.index), ("value", .nat b.value.toNat)]

end Binding

namespace Command

/-- Reads a command. -/
def ofJson? (json : Json) : Option Command := do
  match ← json.record? ["process", "at", "next", "guard", "update", "assert_ne"] with
  | [process, source, target, guard, update, forbidden] =>
    let process ← process.index?
    let source ← source.byte?
    let target ← target.byte?
    let guard ← guard.nullable? Binding.ofJson?
    let update ← update.nullable? Binding.ofJson?
    let forbidden ← forbidden.nullable? Binding.ofJson?
    return ⟨process, source, target, guard, update, forbidden⟩
  | _ => none

/-- Writes a command. -/
def toJson (c : Command) : Json :=
  .obj [("process", .nat c.process), ("at", .nat c.source.toNat), ("next", .nat c.target.toNat),
    ("guard", .orNull Binding.toJson c.guard), ("update", .orNull Binding.toJson c.update),
    ("assert_ne", .orNull Binding.toJson c.forbidden)]

end Command

namespace Program

/-- Reads a program. -/
def ofJson? (json : Json) : Option Program := do
  match ← json.record? ["processes", "locations", "variables", "domain", "commands"] with
  | [processes, locations, variableCount, domain, commands] =>
    let processes ← processes.index?
    let locations ← locations.byte?
    let variableCount ← variableCount.index?
    let domain ← domain.byte?
    let commands ← commands.list? Command.ofJson?
    return ⟨processes, locations, variableCount, domain, commands.toArray⟩
  | _ => none

/-- Writes a program. -/
def toJson (p : Program) : Json :=
  .obj [("processes", .nat p.processCount), ("locations", .nat p.locationCount.toNat),
    ("variables", .nat p.variableCount), ("domain", .nat p.domain.toNat),
    ("commands", .arr (p.commands.toList.map Command.toJson))]

end Program

namespace Params

/-- Reads parameters. -/
def ofJson? (json : Json) : Option Params := do
  let names :=
    ["id", "n_process", "n_location", "n_variable", "domain", "n_branch", "assertions"]
  match ← json.record? names with
  | [id, processes, locations, variableCount, domain, branches, assertions] =>
    let id ← id.index?
    let processes ← processes.index?
    let locations ← locations.byte?
    let variableCount ← variableCount.index?
    let domain ← domain.byte?
    let branches ← branches.index?
    let assertions ← assertions.bool?
    return ⟨id, processes, locations, variableCount, domain, branches, assertions⟩
  | _ => none

/-- Writes parameters. -/
def toJson (p : Params) : Json :=
  .obj [("id", .nat p.id), ("n_process", .nat p.processCount),
    ("n_location", .nat p.locationCount.toNat), ("n_variable", .nat p.variableCount),
    ("domain", .nat p.domain.toNat), ("n_branch", .nat p.branches),
    ("assertions", .bool p.assertions)]

end Params

/-- **A drawn program.** -/
structure Generated where
  params : Params
  info : String
  start : Time
  finish : Time
  program : Program

namespace Generated

/-- Reads a drawn program. -/
def ofJson? (json : Json) : Option Generated := do
  match ← json.record? ["params", "info", "start", "end", "program"] with
  | [params, info, start, finish, program] =>
    let params ← Params.ofJson? params
    let info ← info.text?
    let start ← Time.parse? (← start.text?)
    let finish ← Time.parse? (← finish.text?)
    let program ← Program.ofJson? program
    return ⟨params, info, start, finish, program⟩
  | _ => none

/-- How long drawing took, in whole milliseconds. -/
def milliseconds (g : Generated) : Int :=
  g.start.millisecondsUntil g.finish

end Generated

end StateSpace

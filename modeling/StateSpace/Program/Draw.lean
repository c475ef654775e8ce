/-
**Programs drawn at random.**

* `Params` — how large a program is to be.
* `Draw.program` — a program with as many commands per process and location as wanted, each leading
  to a random location. Half of the commands are guarded, half of them set a variable, and one in
  eight forbids a binding if assertions are wanted. There is no such program without a location, a
  variable or a value to choose from.
* `Draw.programs` — several programs, numbered from zero.
* `Params.withinBounds` — whether a program keeps to the parameters.

Any source of random numbers will do.
-/

import StateSpace.Program.Basic

namespace StateSpace

/-- **How large a program is to be.** -/
structure Params where
  id : Nat
  processCount : Nat
  locationCount : UInt8
  variableCount : Nat
  domain : UInt8
  /-- The commands of each process at each location. -/
  branches : Nat
  /-- Whether commands may forbid bindings. -/
  assertions : Bool
deriving DecidableEq

namespace Draw

variable {γ : Type} [RandomGen γ]

/-- A number below a bound. -/
def below (bound : Nat) : StateM γ Nat := fun source =>
  let (number, source) := RandomGen.next source
  (number % bound, source)

/-- A variable and a value. -/
def binding (params : Params) : StateM γ Binding := do
  let index ← below params.variableCount
  let value ← below params.domain.toNat
  return ⟨index, UInt8.ofNat value⟩

/-- A chance of one in `odds`. -/
def chance (odds : Nat) : StateM γ Bool := do
  let number ← below odds
  return number == 0

/-- A binding that counts only with luck. -/
def withLuck (lucky : Bool) (binding : Binding) : Option Binding :=
  if lucky then some binding else none

/-- Whether a binding is forbidden: one in eight, if any at all. -/
def forbids (params : Params) : StateM γ Bool :=
  if params.assertions then chance 8 else return false

/-- A command of a process at a location. All bindings are drawn, and then luck decides which of
them count. -/
def command (params : Params) (process location : Nat) : StateM γ Command := do
  let guard ← binding params
  let update ← binding params
  let forbidden ← binding params
  let target ← below params.locationCount.toNat
  let guarded ← chance 2
  let updating ← chance 2
  let forbidding ← forbids params
  return {
    process := process
    source := UInt8.ofNat location
    target := UInt8.ofNat target
    guard := withLuck guarded guard
    update := withLuck updating update
    forbidden := withLuck forbidding forbidden }

/-- The process and the location of a command: the branches of a location stand together, and so do
the locations of a process. -/
def place (params : Params) (number : Nat) : Nat × Nat :=
  let location := number / params.branches
  (location / params.locationCount.toNat, location % params.locationCount.toNat)

/-- The places of all commands, in order. -/
def places (params : Params) : List (Nat × Nat) :=
  let commandCount := params.processCount * (params.locationCount.toNat * params.branches)
  (List.range commandCount).map (place params)

/-- Whether there is nothing to choose from. -/
def emptyRange (params : Params) : Bool :=
  params.locationCount == 0 || params.variableCount == 0 || params.domain == 0

/-- A program whose commands are chosen from what there is. -/
def chosen (params : Params) : StateM γ Program := do
  let commands ← (places params).mapM fun place => command params place.1 place.2
  return {
    processCount := params.processCount
    locationCount := params.locationCount
    variableCount := params.variableCount
    domain := params.domain
    commands := commands.toArray }

/-- **A program**, if there is something to choose from. -/
def program (params : Params) : StateM γ (Option Program) := do
  if emptyRange params then return none
  return some (← chosen params)

/-- **Several programs with their numbers**, if there is something to choose from or none is
wanted. -/
def programs (count : Nat) (params : Params) : StateM γ (Option (List (Nat × Program))) := do
  if count ≠ 0 && emptyRange params then return none
  return some (← (List.range count).mapM fun id => return (id, ← chosen params))

end Draw

/-- Whether targets and bindings keep to the parameters and nothing is forbidden unless wanted. -/
def Params.withinBounds (params : Params) (p : Program) : Bool :=
  p.commands.all fun command =>
    decide (command.target < params.locationCount)
      && command.bindings.all (fun binding =>
        decide (binding.index < params.variableCount) && decide (binding.value < params.domain))
      && (params.assertions || command.forbidden.isNone)

end StateSpace

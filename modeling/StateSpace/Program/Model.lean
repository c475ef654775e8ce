/-
**Programs as transition systems.**

* `Condition` — what a guard of a program tests: where a process stands, or what a variable holds.
* `Program.conditions` — the guards of a program: the locations of each process, then the guards of
  the commands in the order of their first use.
* `Program.system` — the description of a program. A state has a variable per process, for its
  location, followed by the shared variables; command number `t` is transition `t`.
* `Program.Describable` — whether there is room for the description.
* `Model` — a program that may be executed, and `Model.ofProgram` the check that makes it one.
* `Model.interpreter` — executes a program on images with a byte per variable.
-/

import StateSpace.Interpreter.Basic
import StateSpace.Program.Basic

namespace StateSpace

/-- **What a guard of a program tests.** -/
inductive Condition where
  | location (process : Nat) (location : UInt8)
  | shared (binding : Binding)
deriving DecidableEq

/-- Whether two bindings can never hold together. -/
def Binding.excludes (first second : Binding) : Bool :=
  first.index == second.index && first.value != second.value

namespace Program

/-! ### Guards -/

/-- The number of guards that test where a process stands. -/
def locationGuardCount (p : Program) : Nat :=
  p.processCount * p.locationCount.toNat

/-- The locations of each process, process by process. -/
def locationConditions (p : Program) : List Condition :=
  (List.range p.locationGuardCount).map fun guard =>
    .location (guard / p.locationCount.toNat) (UInt8.ofNat (guard % p.locationCount.toNat))

/-- The guards of the commands, in the order of their first use. -/
def sharedGuards (p : Program) : List Binding :=
  (p.commands.toList.filterMap Command.guard).eraseDups

/-- What the guards of the program test, by number. -/
def conditions (p : Program) : List Condition :=
  p.locationConditions ++ p.sharedGuards.map .shared

/-- The number of the guard that a process stands at a location. -/
def locationGuard (p : Program) (process : Nat) (location : UInt8) : Nat :=
  process * p.locationCount.toNat + location.toNat

/-- The number of the guard that a binding holds, where `shared` are the guards of the commands. -/
def sharedGuard (p : Program) (shared : List Binding) (binding : Binding) : Nat :=
  p.locationGuardCount + shared.idxOf binding

/-! ### Footprints -/

/-- The variable in which a shared variable is kept, after the locations of the processes. -/
def slot (p : Program) (binding : Binding) : Nat :=
  p.processCount + binding.index

/-- The name of a command. -/
def commandLabel (command : Command) : String :=
  let process := command.process
  let source := command.source.toNat
  let target := command.target.toNat
  s!"p{process}:{source}->{target}"

/-- The footprint of a command, where `shared` are the guards of the commands. -/
def transition (p : Program) (shared : List Binding) (command : Command) : Transition where
  label := commandLabel command
  processes := [command.process]
  reads := command.forbidden.toList.map p.slot
  writes := command.process :: command.update.toList.map p.slot
  guards := p.locationGuard command.process command.source
    :: command.guard.toList.map (p.sharedGuard shared)

/-- The variable that a condition reads. -/
def conditionRead (p : Program) : Condition → Nat
  | .location process _ => process
  | .shared binding => p.slot binding

/-- The pairs of guards that test for different locations of one process, the earlier one first. -/
def locationPairs (p : Program) : List (Nat × Nat) :=
  (List.range p.locationGuardCount).flatMap fun guard =>
    let later := p.locationCount.toNat - 1 - guard % p.locationCount.toNat
    (List.range' (guard + 1) later).map fun other => (guard, other)

/-- The pairs of numbered bindings that exclude one another, the earlier one first. -/
def sharedPairs : List (Binding × Nat) → List (Nat × Nat)
  | [] => []
  | (binding, number) :: rest =>
    (rest.filter fun other => binding.excludes other.1).map (fun other => (number, other.2))
      ++ sharedPairs rest

/-- The number of bytes of a state. -/
def imageSize (p : Program) : Nat :=
  p.processCount + p.variableCount

/-- **The description of a program.** -/
def system (p : Program) : TransitionSystem :=
  let shared := p.sharedGuards
  { variableCount := p.imageSize
    processCount := p.processCount
    transitions := p.commands.map (p.transition shared)
    guards := (p.conditions.map fun condition => ⟨[p.conditionRead condition], none⟩).toArray
    exclusiveGuards := p.locationPairs ++ sharedPairs (shared.zipIdx p.locationGuardCount) }

/-- **There is room for the description of a program.** Its variables are numbered with 64 bits, and
its lists can be allocated. A transition takes 120 bytes and a guard 48. The exclusive pairs, of 16
bytes each, are found one by one, and where these have no room, room for twice as many is asked
for. -/
structure Describable (p : Program) : Prop where
  numbered : p.imageSize < UInt64.size
  transitions : 120 * p.commands.size < allocationLimit
  guards : 48 * p.system.guards.size < allocationLimit
  pairs : 32 * p.system.exclusiveGuards.length ≤ allocationLimit

instance (p : Program) : Decidable p.Describable :=
  decidable_of_iff (p.imageSize < UInt64.size ∧ 120 * p.commands.size < allocationLimit ∧
      48 * p.system.guards.size < allocationLimit ∧
      32 * p.system.exclusiveGuards.length ≤ allocationLimit)
    ⟨fun room => ⟨room.1, room.2.1, room.2.2.1, room.2.2.2⟩,
      fun room => ⟨room.numbered, room.transitions, room.guards, room.pairs⟩⟩

/-- A bound on the number of states: all bytes are zero at first, and a command writes two of them
at most. -/
def stateBound (p : Program) : Nat :=
  Nat.pow 256 (2 * p.commands.size)

end Program

/-- **A program that may be executed**: its commands are in order, and there is room for its
description. -/
structure Model where
  program : Program
  inOrder : program.violations = []
  describable : program.Describable

namespace Model

/-- The description of a model. -/
def system (m : Model) : TransitionSystem :=
  m.program.system

/-- **The model of a program**, unless something is wrong with its commands or its size. -/
def ofProgram (p : Program) : Except Failure Model :=
  match inOrder : p.violations with
  | first :: _ => .error (.error first)
  | [] =>
    if describable : p.Describable then .ok ⟨p, inOrder, describable⟩
    else .error (.abort .overflow)

/-! ### Reading and writing images -/

/-- A byte of an image; past its end the call breaks off. -/
def byteAt (image : List UInt8) (place : Nat) : Except Abort UInt8 :=
  match image[place]? with
  | some byte => .ok byte
  | none => .error .outOfRange

/-- The image with a byte changed; past its end the call breaks off. -/
def writeByte (image : List UInt8) (place : Nat) (byte : UInt8) : Except Abort (List UInt8) :=
  if place < image.length then .ok (image.set place byte) else .error .outOfRange

/-- Whether a binding holds in an image. -/
def holds (m : Model) (image : List UInt8) (binding : Binding) : Except Abort Bool := do
  let byte ← byteAt image (m.program.slot binding)
  return byte == binding.value

/-- Whether a binding holds in an image; `absent` is the answer if there is none. -/
def holdsIfAny (m : Model) (image : List UInt8) (absent : Bool) :
    Option Binding → Except Abort Bool
  | none => .ok absent
  | some binding => m.holds image binding

/-! ### Commands -/

/-- **Whether a command is enabled in an image.** Its guard is read only where its process stands
in the right place. -/
def enables (m : Model) (image : List UInt8) (command : Command) : Except Abort Bool := do
  let location ← byteAt image command.process
  if location = command.source then m.holdsIfAny image true command.guard else return false

/-- The numbers of the enabled ones among some numbered commands. -/
def enabledAmong (m : Model) (image : List UInt8) :
    List (Command × Nat) → Except Abort (List Nat)
  | [] => .ok []
  | (command, number) :: rest => do
    let enabled ← m.enables image command
    let others ← m.enabledAmong image rest
    return if enabled then number :: others else others

/-- The numbers of the commands that are enabled in an image. -/
def enabled (m : Model) (image : List UInt8) : Except Abort (List Nat) :=
  m.enabledAmong image m.program.commands.toList.zipIdx

/-- The image after a command has moved its process and set its variable. -/
def moved (m : Model) (image : List UInt8) (command : Command) : Except Abort (List UInt8) := do
  let image ← writeByte image command.process command.target
  match command.update with
  | none => return image
  | some binding => writeByte image (m.program.slot binding) binding.value

/-- **What firing a command reports**: nothing where it is disabled, a fault where its forbidden
binding holds, and otherwise a successor. -/
def fire (m : Model) (image : List UInt8) (number : Nat) (command : Command) :
    Except Abort (Option Event) := do
  if ← m.enables image command then
    if ← m.holdsIfAny image false command.forbidden then
      return some (.fault ⟨.assertion, command.process, command.source.toUInt32, some number⟩)
    else
      let next ← m.moved image command
      return some (.successor next ⟨number, command.process⟩)
  else return none

/-- What firing a transition reports; a number without a command fires nothing. -/
def events (m : Model) (image : List UInt8) (t : Nat) : List (Except Abort Event) :=
  match m.program.commands[t]? with
  | none => []
  | some command =>
    match m.fire image t command with
    | .error cause => [.error cause]
    | .ok none => []
    | .ok (some event) => [.ok event]

/-! ### The interpreter -/

/-- The state in which everything is zero. Without a process there is none, and its bytes have to be
allocated. -/
def initial (m : Model) : Except Abort (Option (List UInt8)) :=
  if m.program.processCount = 0 then .ok none
  else if m.program.imageSize < allocationLimit then
    .ok (some (List.replicate m.program.imageSize 0))
  else .error .overflow

/-- The account of a fault: what the command behind it forbids, if it forbids anything. -/
def account (m : Model) (fault : Fault) : String :=
  match (fault.transition.bind fun t => m.program.commands[t]?).bind Command.forbidden with
  | some binding =>
    let number := binding.index
    let value := binding.value.toNat
    s!"assertion violated: v{number} == {value}"
  | none =>
    let code := fault.code.code.toNat
    s!"runtime error {code}"

/-- Bytes as a list of decimal numbers. -/
def listing (bytes : List UInt8) : String :=
  "[" ++ ", ".intercalate (bytes.map fun byte => toString byte.toNat) ++ "]"

/-- The locations of the processes and the values of the variables. -/
def format (m : Model) (image : List UInt8) : String :=
  "pc=" ++ listing (image.take m.program.processCount)
    ++ " v=" ++ listing (image.drop m.program.processCount)

/-- Whether a guard holds in an image, where `conditions` are what the guards test; a number without
a guard is unknown. -/
def guardHolds (m : Model) (conditions : Array Condition) (image : List UInt8) (guard : Nat) :
    Except Abort (Option Bool) :=
  match conditions[guard]? with
  | none => .ok none
  | some (.location process location) =>
    (byteAt image process).map fun byte => some (byte == location)
  | some (.shared binding) => (m.holds image binding).map some

/-- **Executes a program.** -/
def interpreter (m : Model) : Interpreter :=
  let conditions := m.program.conditions.toArray
  { system := m.system
    initial := .mk fun _ => m.initial
    enabled := m.enabled
    report := fun image transitions => transitions.flatMap (m.events image)
    ignoresStop := false
    account := m.account
    stateSize := fun raw => Nat.min raw.length m.program.imageSize
    format := m.format
    guardHolds := m.guardHolds conditions
    accepting := fun _ => false }

end Model

end StateSpace

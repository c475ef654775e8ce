/-
**Static relations between transitions.**

* `Analysis` — the relations that follow from a description alone, each as a bit matrix. A
  transition reads what its update and its guards read.
  * `dependent` — one writes what the other reads or writes.
  * `conflict` — two different transitions write a common variable.
  * `sameProcess` — two different transitions carry a common process tag.
  * `neverCoenabled` — two different transitions have guards that exclude one another.
  * `coenabled` — two guards may hold together.
  * `enabling` — the transitions without which a false guard stays false: those declared, or else
    all that write a variable which the guard reads.
* `Analysis.ofSystem` — the relations of a well-formed description whose matrices fit in memory.
* `Analysis.interference` — what a reduction walks along: dependence between different transitions
  that may be enabled together, optionally with the transitions of a common process.
-/

import StateSpace.Analysis.Validation
import StateSpace.BitMatrix.Basic

namespace StateSpace

/-- **The relations of a well-formed system.** -/
structure Analysis where
  variableCount : Nat
  /-- The name of each transition. -/
  labels : Array String
  /-- The process tags of each transition, ascending. -/
  processes : Array (List Nat)
  /-- The guards of each transition, ascending. -/
  guards : Array (List Nat)
  /-- The variables that a transition reads, its guards included. -/
  read : BitMatrix
  /-- The variables that a transition writes. -/
  write : BitMatrix
  /-- The variables that a guard reads. -/
  guardRead : BitMatrix
  /-- The transitions that can make a guard true. -/
  enabling : BitMatrix
  /-- The guards that may hold together. -/
  coenabled : BitMatrix
  dependent : BitMatrix
  conflict : BitMatrix
  sameProcess : BitMatrix
  neverCoenabled : BitMatrix
deriving DecidableEq

/-! ### Lists of numbers -/

/-- An ascending list with one more number, unless it is there already. -/
def insertAscending (number : Nat) : List Nat → List Nat
  | [] => [number]
  | first :: rest =>
    if number < first then number :: first :: rest
    else if number = first then first :: rest
    else first :: insertAscending number rest

/-- Numbers in ascending order, each once. -/
def ascending (numbers : List Nat) : List Nat :=
  numbers.foldr insertAscending []

/-- The cells of rows given as lists of columns. -/
def rowCells (rows : List (List Nat)) : List (Nat × Nat) :=
  rows.zipIdx.flatMap fun (columns, row) => columns.map fun col => (row, col)

/-! ### From a description -/

namespace TransitionSystem

/-- What a transition is called. -/
def labelOf (transition : Transition) (number : Nat) : String :=
  if transition.label.isEmpty then s!"t{number}" else transition.label

/-- The variables read by the guards of a transition. -/
def guardReads (s : TransitionSystem) (transition : Transition) : List Nat :=
  transition.guards.flatMap fun guard => ((s.guards[guard]?).map Guard.reads).getD []

/-- Transitions by the variables they read. -/
def readMatrix (s : TransitionSystem) : BitMatrix :=
  .ofCells s.transitions.size s.variableCount
    (rowCells (s.transitions.toList.map fun transition =>
      transition.reads ++ s.guardReads transition))

/-- Transitions by the variables they write. -/
def writeMatrix (s : TransitionSystem) : BitMatrix :=
  .ofCells s.transitions.size s.variableCount
    (rowCells (s.transitions.toList.map Transition.writes))

/-- Guards by the variables they read. -/
def guardReadMatrix (s : TransitionSystem) : BitMatrix :=
  .ofCells s.guards.size s.variableCount (rowCells (s.guards.toList.map Guard.reads))

/-- The transitions that write a variable which a guard reads. -/
def writersFor (s : TransitionSystem) (write guardRead : BitMatrix) (guard : Nat) : List Nat :=
  (List.range s.transitions.size).filter fun transition => write.meets transition guardRead guard

/-- Guards by the transitions that can make them true. -/
def enablingMatrix (s : TransitionSystem) (write guardRead : BitMatrix) : BitMatrix :=
  .ofCells s.guards.size s.transitions.size
    (rowCells (s.guards.toList.zipIdx.map fun (guard, number) =>
      guard.enablers.getD (s.writersFor write guardRead number)))

/-- Guards by the guards that exclude them. -/
def exclusiveMatrix (s : TransitionSystem) : BitMatrix :=
  .ofCells s.guards.size s.guards.size (s.exclusiveGuards ++ s.exclusiveGuards.map Prod.swap)

/-- Whether the matrices that footprints are noted in fit in memory. -/
def footprintsFit (s : TransitionSystem) : Bool :=
  let transitions := s.transitions.size
  let guards := s.guards.size
  BitMatrix.fitsMemory transitions s.variableCount && BitMatrix.fitsMemory guards s.variableCount
    && BitMatrix.fitsMemory guards transitions && BitMatrix.fitsMemory guards guards

/-- Whether all matrices over transitions, guards and variables fit in memory. -/
def fitsMemory (s : TransitionSystem) : Bool :=
  s.footprintsFit && BitMatrix.fitsMemory s.transitions.size s.transitions.size

end TransitionSystem

namespace Analysis

/-- The relations of a description that is known to be well formed. -/
def ofValid (s : TransitionSystem) : Analysis :=
  let count := s.transitions.size
  let processes := s.transitions.map fun transition => ascending transition.processes
  let guards := s.transitions.map fun transition => ascending transition.guards
  let read := s.readMatrix
  let write := s.writeMatrix
  let guardRead := s.guardReadMatrix
  let exclusive := s.exclusiveMatrix
  { variableCount := s.variableCount
    labels := s.transitions.mapIdx fun number transition =>
      TransitionSystem.labelOf transition number
    processes := processes
    guards := guards
    read := read
    write := write
    guardRead := guardRead
    enabling := s.enablingMatrix write guardRead
    coenabled := .ofRelation s.guards.size s.guards.size fun g h => !exclusive.get g h
    dependent := .ofRelation count count fun t u =>
      write.meets t read u || write.meets t write u || write.meets u read t
    conflict := .ofRelation count count fun t u => t != u && write.meets t write u
    sameProcess := .ofRelation count count fun t u =>
      t != u && (processes.getD t []).any fun process => (processes.getD u []).contains process
    neverCoenabled := .ofRelation count count fun t u =>
      t != u && (guards.getD t []).any fun g => (guards.getD u []).any fun h => exclusive.get g h }

/-- **The relations of a description**, or its first violation. A missing process is found before
memory is asked for. Anything else is found with the matrices of the footprints at hand, and before
those that relate two transitions are made. -/
def ofSystem (s : TransitionSystem) : Except Failure Analysis := do
  orError (refuseFirst s.processViolations)
  if s.footprintsFit then
    orError (refuseFirst s.violations)
    if s.fitsMemory then return ofValid s else .error (.abort .overflow)
  else .error (.abort .overflow)

/-- The number of transitions. -/
def transitionCount (a : Analysis) : Nat :=
  a.labels.size

/-- The number of guards. -/
def guardCount (a : Analysis) : Nat :=
  a.coenabled.rows

/-- The process tags of a transition. -/
def processesOf (a : Analysis) (t : Nat) : List Nat :=
  a.processes.getD t []

/-- The guards of a transition. -/
def guardsOf (a : Analysis) (t : Nat) : List Nat :=
  a.guards.getD t []

/-- The transitions that can make a guard true. -/
def enablersOf (a : Analysis) (g : Nat) : List Nat :=
  a.enabling.columns g

/-- **What a reduction walks along**: different transitions that may be enabled together and are
dependent or, if `processLocal`, share a process. -/
def interference (a : Analysis) (processLocal : Bool) : BitMatrix :=
  .ofRelation a.transitionCount a.transitionCount fun t u =>
    t != u && !a.neverCoenabled.get t u
      && (a.dependent.get t u || processLocal && a.sameProcess.get t u)

/-! ### Queries that may be out of range -/

/-- The element at a position; past the end the call breaks off. -/
def elementAt {α : Type} (elements : Array α) (position : Nat) : Except Abort α :=
  match elements[position]? with
  | some element => .ok element
  | none => .error .outOfRange

/-- The name of a transition. -/
def label (a : Analysis) (t : Nat) : Except Abort String :=
  elementAt a.labels t

/-- The variables that a transition reads. -/
def readSet (a : Analysis) (t : Nat) : Except Abort (List Nat) :=
  a.read.rowColumns t

/-- The variables that a transition writes. -/
def writeSet (a : Analysis) (t : Nat) : Except Abort (List Nat) :=
  a.write.rowColumns t

/-- The process tags of a transition. -/
def tags (a : Analysis) (t : Nat) : Except Abort (List Nat) :=
  elementAt a.processes t

/-- The guards of a transition. -/
def ownGuards (a : Analysis) (t : Nat) : Except Abort (List Nat) :=
  elementAt a.guards t

/-- The transitions that can make a guard true. -/
def enablingSet (a : Analysis) (g : Nat) : Except Abort (List Nat) :=
  a.enabling.rowColumns g

end Analysis

end StateSpace

/-
**Reduced sets of enabled transitions.**

* `Reducer` — the static relations of a system, the chosen method and the statistics so far.
* `Reducer.baseMembers` — the method `base`. The seeds are the enabled transitions that, taken in
  ascending order, bring a new process; the set is closed under interference among enabled
  transitions.
* `Reducer.stubbornMembers` — the method `stubbornSet`. The seed is the least enabled transition,
  and `Reducer.demands` says what each member asks for:
  1. an enabled member asks for all transitions it interferes with, and for the enabled ones it
     conflicts with;
  2. a disabled member without guards asks for all transitions it interferes with;
  3. a disabled member with a guard that is known to be false asks for the transitions that can
     make the first such guard true;
  4. any other disabled member asks for the transitions that can make one of its guards true, of
     all guards not known to hold.
* `Reducer.reduce` — one flag per entry of an enabled list, and the reducer with one more state in
  its statistics.
-/

import StateSpace.Analysis.Basic
import StateSpace.Reduction.Closure
import StateSpace.Reduction.Stats

namespace StateSpace

/-- How reduced sets are built. -/
inductive Method where
  | base
  | stubbornSet
deriving DecidableEq

/-- The choices fixed when a reducer is made. -/
structure Options where
  method : Method := .base
  /-- Whether transitions of a common process count as interfering. -/
  processLocal : Bool := false
deriving DecidableEq

/-- **What is known of the guards in a state.** -/
abbrev Oracle := Nat → Option Bool

/-- **A reducer for one system.** -/
structure Reducer where
  analysis : Analysis
  options : Options
  interference : BitMatrix
  stats : Stats

namespace Reducer

/-- A reducer over relations that are already known. -/
def ofAnalysis (analysis : Analysis) (options : Options) : Reducer where
  analysis := analysis
  options := options
  interference := analysis.interference options.processLocal
  stats := .initial

/-- A reducer for a description that can be analysed. -/
def ofSystem (s : TransitionSystem) (options : Options) : Except Failure Reducer := do
  let analysis ← Analysis.ofSystem s
  return ofAnalysis analysis options

/-- The number of transitions. -/
def transitionCount (r : Reducer) : Nat :=
  r.analysis.transitionCount

/-! ### The method `base` -/

/-- Of some transitions those that bring a process which is not covered yet. -/
def seeds (r : Reducer) (covered : List Nat) : List Nat → List Nat
  | [] => []
  | t :: rest =>
    let processes := r.analysis.processesOf t
    if processes.all covered.contains then r.seeds covered rest
    else t :: r.seeds (processes ++ covered) rest

/-- The seeds of an enabled list, whose entries are taken in ascending order. -/
def seedsOf (r : Reducer) (enabled : List Nat) : List Nat :=
  r.seeds [] (ascending enabled)

/-- The enabled transitions that one interferes with. -/
def enabledNeighbours (r : Reducer) (enabled : Members) (t : Nat) : List Nat :=
  (r.interference.columns t).filter enabled.has

/-- **The seeds, closed under interference among enabled transitions.** -/
def baseMembers (r : Reducer) (enabled : List Nat) : Members :=
  closureOf (r.enabledNeighbours (.ofList r.transitionCount enabled)) r.transitionCount
    (r.seedsOf enabled)

/-! ### The method `stubbornSet` -/

/-- The guards of a transition that decide what it asks for while it is disabled: the first one
known to be false, or else all that are not known to hold. -/
def decisiveGuards (r : Reducer) (holds : Oracle) (t : Nat) : List Nat :=
  let guards := r.analysis.guardsOf t
  match guards.find? fun g => holds g == some false with
  | some g => [g]
  | none => guards.filter fun g => holds g != some true

/-- The enabled transitions that one conflicts with. -/
def enabledRivals (r : Reducer) (enabled : Members) (t : Nat) : List Nat :=
  (List.range r.transitionCount).filter fun u =>
    u != t && enabled.has u && r.analysis.conflict.get t u

/-- **The transitions that a member asks for.** -/
def demands (r : Reducer) (enabled : Members) (holds : Oracle) (t : Nat) : List Nat :=
  if enabled.has t then r.interference.columns t ++ r.enabledRivals enabled t
  else if (r.analysis.guardsOf t).isEmpty then r.interference.columns t
  else (r.decisiveGuards holds t).flatMap r.analysis.enablersOf

/-- **A seed, closed under what members ask for.** -/
def stubbornMembers (r : Reducer) (enabled : List Nat) (holds : Oracle) (seed : Nat) : Members :=
  closureOf (r.demands (.ofList r.transitionCount enabled) holds) r.transitionCount [seed]

/-! ### Reducing an enabled list -/

/-- The least entry of a list that starts with `first`. -/
def least (first : Nat) (rest : List Nat) : Nat :=
  rest.foldl Nat.min first

/-- The members for an enabled list with a least entry. -/
def members (r : Reducer) (enabled : List Nat) (holds : Oracle) (seed : Nat) : Members :=
  match r.options.method with
  | .base => r.baseMembers enabled
  | .stubbornSet => r.stubbornMembers enabled holds seed

/-- One flag per entry of an enabled list whose entries are in range. A single transition is
always kept. -/
def flags (r : Reducer) (enabled : List Nat) (holds : Oracle) : List Bool :=
  match enabled with
  | [] => []
  | [_] => [true]
  | first :: rest =>
    let members := r.members enabled holds (least first rest)
    enabled.map members.has

/-- **Keeps or drops each entry of an enabled list** and records the state. An entry that is no
transition of the system is an error, the first one if there are several. -/
def reduce (r : Reducer) (enabled : List Nat) (holds : Oracle) :
    Except Failure (List Bool × Reducer) :=
  match enabled.find? fun t => r.transitionCount ≤ t with
  | some t => .error (.error (.transitionOutOfRange t r.transitionCount))
  | none => do
    let kept := r.flags enabled holds
    let stats ← orAbort (r.stats.record (kept.count true) enabled.length)
    return (kept, { r with stats := stats })

/-- The guards that are looked at for a disabled transition: all up to the first one that is known
to be false. -/
def guardsLookedAt (r : Reducer) (holds : Oracle) (t : Nat) : List Nat :=
  let guards := r.analysis.guardsOf t
  guards.take (guards.findIdx (fun g => holds g == some false) + 1)

/-- The guards that a reduction looks at, which are those of the disabled members of a stubborn
set. -/
def consulted (r : Reducer) (enabled : List Nat) (holds : Oracle) : List Nat :=
  match r.options.method, enabled with
  | .stubbornSet, first :: second :: rest =>
    let members := r.stubbornMembers enabled holds (least first (second :: rest))
    let fires := Members.ofList r.transitionCount enabled
    ((List.range r.transitionCount).filter fun t => members.has t && !fires.has t).flatMap
      (r.guardsLookedAt holds)
  | _, _ => []

end Reducer

end StateSpace

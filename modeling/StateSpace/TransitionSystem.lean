/-
**Descriptions of transition systems.**

* `TransitionSystem` — what is known of a system when it is loaded: how many variables and
  processes it has, the footprints of its transitions and guards, and which guards exclude one
  another.

Variables, processes, transitions and guards are known by their numbers, counted from zero.
-/

namespace StateSpace

/-- **The footprint of a transition.** -/
structure Transition where
  /-- Its name in listings; without one it is known by its number. -/
  label : String
  /-- The processes it belongs to, several for a joint step. -/
  processes : List Nat
  /-- The variables its update reads; what its guards read comes on top. -/
  reads : List Nat
  /-- The variables its update may change. -/
  writes : List Nat
  /-- The guards that all have to hold for it to be enabled. -/
  guards : List Nat
deriving DecidableEq

/-- **The footprint of a guard.** -/
structure Guard where
  /-- The variables its truth depends on. -/
  reads : List Nat
  /-- The transitions that can make it true, if they are known. -/
  enablers : Option (List Nat)
deriving DecidableEq

/-- **A transition system as described when it is loaded.** -/
structure TransitionSystem where
  variableCount : Nat
  processCount : Nat
  transitions : Array Transition
  guards : Array Guard
  /-- Pairs of guards that never hold in the same state. -/
  exclusiveGuards : List (Nat × Nat)
deriving DecidableEq

end StateSpace

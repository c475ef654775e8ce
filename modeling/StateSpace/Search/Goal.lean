/-
**When a search may stop.**

* `Goal` — a state to find, a byte to find at some place, or a number of states to look at.
* `Goal.accepts` — whether the search may stop at a state.
-/

import StateSpace.Image.Basic

namespace StateSpace

/-- **What a search looks for**; any one of the conditions ends it. -/
structure Goal where
  /-- A state with exactly these bytes. -/
  bytes : Option (List UInt8) := none
  /-- A state with this value at this place. -/
  byte : Option (Nat × UInt8) := none
  /-- Any state, once so many have been looked at. -/
  count : Option Nat := none

namespace Goal

/-- Whether a state is the one to find. -/
def isState (goal : Goal) (state : Image) : Bool :=
  goal.bytes == some state.bytes

/-- Whether a state has the byte to find. -/
def hasByte (goal : Goal) (state : Image) : Bool :=
  match goal.byte with
  | some (place, value) => state.bytes[place]? == some value
  | none => false

/-- Whether so many states are enough. -/
def isEnough (goal : Goal) (number : Nat) : Bool :=
  match goal.count with
  | some count => count ≤ number
  | none => false

/-- Whether the search may stop at the `number`-th state it looks at, counted from one. -/
def accepts (goal : Goal) (number : Nat) (state : Image) : Bool :=
  goal.isState state || goal.hasByte state || goal.isEnough number

end Goal

end StateSpace

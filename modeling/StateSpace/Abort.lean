/-
**Calls that break off.**

* `Abort` — the ways in which a call gives neither a value nor an error of the domain.
* `addWords` — the sum of two counters that are 64 bits wide.
* `allocationLimit` — an allocation has fewer bytes.
-/

namespace StateSpace

/-- **Why a call broke off.** -/
inductive Abort where
  /-- A cell was to be set outside its matrix. -/
  | cellOutOfBounds
  /-- Two rows of different widths were to be united. -/
  | columnCountMismatch
  /-- A number does not fit in 64 bits. -/
  | overflow
  /-- A position past the end of a row, a list or an image was read. -/
  | outOfRange
deriving DecidableEq

/-- The text that stands for a broken-off call. -/
def Abort.message : Abort → String
  | .cellOutOfBounds => "cell out of bounds"
  | .columnCountMismatch => "column count mismatch"
  | .overflow => "overflow"
  | .outOfRange => "out of range"

/-- The sum of two counters, if it still fits in 64 bits. -/
def addWords (first second : Nat) : Except Abort Nat :=
  if first + second < UInt64.size then .ok (first + second) else .error .overflow

/-- The bytes of an allocation have addresses of 64 bits, one of which is a sign. -/
def allocationLimit : Nat := 9223372036854775808

end StateSpace

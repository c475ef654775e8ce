/-
**Statistics of a reduction.**

* `Stats` — how many transitions were kept out of how many enabled ones, summed over states, with
  the extremes. The counters are 64 bits wide.
* `Stats.record` — one more state.
* `Stats.merge` — the states of a second record.
* `Stats.display` — the figures as text.
-/

import StateSpace.Abort
import StateSpace.Text.Fixed

namespace StateSpace

/-- The greatest 64-bit number. -/
def maxWord : Nat := 18446744073709551615

/-- **Kept and enabled transitions over a number of states.** -/
structure Stats where
  states : Nat := 0
  reduced : Nat := 0
  enabled : Nat := 0
  minReduced : Nat := maxWord
  maxReduced : Nat := 0
  minEnabled : Nat := maxWord
  maxEnabled : Nat := 0
  minRatio : Float := 1.0 / 0.0
  maxRatio : Float := 0.0
deriving BEq

/-- The share of kept transitions; one if none were enabled. -/
def ratio (reduced enabled : Nat) : Float :=
  if enabled = 0 then 1.0 else reduced.toUInt64.toFloat / enabled.toUInt64.toFloat

/-- The smaller of two ratios. -/
def lesser (first second : Float) : Float :=
  if second < first then second else first

/-- The greater of two ratios. -/
def greater (first second : Float) : Float :=
  if first < second then second else first

namespace Stats

/-- Nothing recorded yet. -/
def initial : Stats := {}

/-- **Records a state** in which `reduced` of `enabled` transitions were kept. -/
def record (s : Stats) (reduced enabled : Nat) : Except Abort Stats := do
  let states ← addWords s.states 1
  let totalReduced ← addWords s.reduced reduced
  let totalEnabled ← addWords s.enabled enabled
  return {
    states := states
    reduced := totalReduced
    enabled := totalEnabled
    minReduced := Nat.min s.minReduced reduced
    maxReduced := Nat.max s.maxReduced reduced
    minEnabled := Nat.min s.minEnabled enabled
    maxEnabled := Nat.max s.maxEnabled enabled
    minRatio := lesser s.minRatio (ratio reduced enabled)
    maxRatio := greater s.maxRatio (ratio reduced enabled) }

/-- **Adds the states of another record.** -/
def merge (s other : Stats) : Except Abort Stats := do
  let states ← addWords s.states other.states
  let reduced ← addWords s.reduced other.reduced
  let enabled ← addWords s.enabled other.enabled
  return {
    states := states
    reduced := reduced
    enabled := enabled
    minReduced := Nat.min s.minReduced other.minReduced
    maxReduced := Nat.max s.maxReduced other.maxReduced
    minEnabled := Nat.min s.minEnabled other.minEnabled
    maxEnabled := Nat.max s.maxEnabled other.maxEnabled
    minRatio := lesser s.minRatio other.minRatio
    maxRatio := greater s.maxRatio other.maxRatio }

/-! ### Answers -/

/-- A value that means something only once a state is recorded. -/
def whenRecorded {α : Type} (s : Stats) (value : α) : Option α :=
  if s.states = 0 then none else some value

/-- The fewest transitions kept in a state. -/
def minReduced? (s : Stats) : Option Nat :=
  s.whenRecorded s.minReduced

/-- The fewest transitions enabled in a state. -/
def minEnabled? (s : Stats) : Option Nat :=
  s.whenRecorded s.minEnabled

/-- The smallest share kept in a state. -/
def minRatio? (s : Stats) : Option Float :=
  s.whenRecorded s.minRatio

/-- The greatest share kept in a state. -/
def maxRatio? (s : Stats) : Option Float :=
  s.whenRecorded s.maxRatio

/-- The share kept over all states. -/
def averageRatio (s : Stats) : Float :=
  ratio s.reduced s.enabled

/-- The figures, a line per kind. -/
def display (s : Stats) : String :=
  let states := s.states
  let reduced := s.reduced
  let minReduced := s.minReduced?.getD 0
  let maxReduced := s.maxReduced
  let enabled := s.enabled
  let minEnabled := s.minEnabled?.getD 0
  let maxEnabled := s.maxEnabled
  let average := Fixed.ofFloat s.averageRatio
  let minRatio := Fixed.ofFloat (s.minRatio?.getD 1.0)
  let maxRatio := Fixed.ofFloat (s.maxRatio?.getD 1.0)
  s!"states:   {states}\n"
    ++ s!"reduced:  {reduced} (min {minReduced}, max {maxReduced})\n"
    ++ s!"enabled:  {enabled} (min {minEnabled}, max {maxEnabled})\n"
    ++ s!"ratio:    {average} (min {minRatio}, max {maxRatio})\n"

end Stats

end StateSpace

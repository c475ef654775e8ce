/-
**Listings of the static relations.**

* `Analysis.dump` — a title with the dimensions, then the matrix with a label before each row: the
  name of the transition, or `g` and the number of the guard.
* `Analysis.dumpRead` and its siblings — one listing per relation, with its title.
-/

import StateSpace.Analysis.Basic
import StateSpace.BitMatrix.Render

namespace StateSpace.Analysis

/-- What the rows of a relation are. -/
inductive Rows where
  | transitions
  | guards

/-- The label of a row. -/
def rowLabel (a : Analysis) : Rows → Nat → String
  | .transitions, row => a.labels.getD row ""
  | .guards, row => s!"g{row}"

/-- A titled listing of a relation. -/
def dump (a : Analysis) (title : String) (rows : Rows) (m : BitMatrix) : String :=
  let height := m.rows
  let width := m.cols
  s!"{title} ({height}x{width})\n" ++ m.render (a.rowLabel rows)

/-- What transitions read. -/
def dumpRead (a : Analysis) : String :=
  a.dump "read dependency" .transitions a.read

/-- What transitions write. -/
def dumpWrite (a : Analysis) : String :=
  a.dump "write dependency" .transitions a.write

/-- What can make guards true. -/
def dumpEnabling (a : Analysis) : String :=
  a.dump "nes guards" .guards a.enabling

/-- Which guards may hold together. -/
def dumpCoenabled (a : Analysis) : String :=
  a.dump "mbc guards" .guards a.coenabled

/-- Which transitions are dependent. -/
def dumpDependent (a : Analysis) : String :=
  a.dump "dependent transitions" .transitions a.dependent

/-- Which transitions conflict. -/
def dumpConflict (a : Analysis) : String :=
  a.dump "conflicting transitions" .transitions a.conflict

/-- Which transitions are never enabled together. -/
def dumpNeverCoenabled (a : Analysis) : String :=
  a.dump "never co-enabled transitions" .transitions a.neverCoenabled

end StateSpace.Analysis

/-
**Bit matrices as text.**

* `BitMatrix.display` — a line per row, `1` for a set cell and `.` for an unset one.
* `BitMatrix.render` — the same with a label before each line, set flush right in twelve columns.
* `BitMatrix.dimensions` — the dimensions in one line.
-/

import StateSpace.BitMatrix.Basic

namespace StateSpace.BitMatrix

/-- A label, filled up with blanks on the left to twelve characters. -/
def flushRight (label : String) : String :=
  String.ofList (List.replicate (12 - label.length) ' ') ++ label

/-- The cells of a row. -/
def line (m : BitMatrix) (row : Nat) : String :=
  String.ofList ((List.range m.cols).map fun col => if m.get row col then '1' else '.')

/-- The cells, a line per row. -/
def display (m : BitMatrix) : String :=
  String.join ((List.range m.rows).map fun row => m.line row ++ "\n")

/-- The cells, a labelled line per row. -/
def render (m : BitMatrix) (label : Nat → String) : String :=
  String.join ((List.range m.rows).map fun row =>
    flushRight (label row) ++ " " ++ m.line row ++ "\n")

/-- Rows and columns in one line. -/
def dimensions (m : BitMatrix) : String :=
  let rows := m.rows
  let cols := m.cols
  s!"BitMatrix({rows}x{cols})"

end StateSpace.BitMatrix

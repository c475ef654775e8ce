/-
**Bit matrices.**

* `BitMatrix` — a finite relation between row and column numbers, one packed bit per cell, each
  row starting at a word of its own.
* `BitMatrix.get` — whether a cell is set; outside the matrix nothing is.
* `BitMatrix.insert`, `BitMatrix.unite` — one more cell, and a row poured into a row.
* `BitMatrix.columns`, `BitMatrix.count`, `BitMatrix.meets` — the set columns of a row in
  ascending order, their number, and whether two rows share one.
* `BitMatrix.ofCells`, `BitMatrix.ofRelation` — the matrix of some cells, and of a relation.
* `BitMatrix.set`, `setBoth`, `uniteRow`, `rowsMeet`, `rowColumns`, `rowSize` — the same
  operations for callers that may be out of bounds, where the call breaks off.
-/

import StateSpace.Abort

namespace StateSpace

/-! ### Words -/

/-- Whether bit `position` of a word is set. -/
def testBit (word : UInt64) (position : Nat) : Bool :=
  word.toNat.testBit position

/-- The word with one bit set. -/
def bit (position : Nat) : UInt64 :=
  UInt64.ofNat (1 <<< position)

/-- The number of zeros below the lowest set bit of a word: in that bit and in all those below it,
and in no others, the word differs from its predecessor. -/
def trailingZeros (word : UInt64) : Nat :=
  (word ^^^ (word - 1)).toNat.log2

theorem toNat_ne_zero {word : UInt64} (nonzero : word ≠ 0) : word.toNat ≠ 0 :=
  fun zero => nonzero (UInt64.toNat_inj.mp zero)

theorem toNat_pred {word : UInt64} (nonzero : word ≠ 0) : (word - 1).toNat = word.toNat - 1 := by
  apply UInt64.toNat_sub_of_le
  exact UInt64.le_iff_toNat_le.mpr (Nat.pos_of_ne_zero (toNat_ne_zero nonzero))

/-- A word gets smaller when its lowest set bit is cleared. -/
theorem toNat_and_pred_lt {word : UInt64} (nonzero : word ≠ 0) :
    (word &&& (word - 1)).toNat < word.toNat := by
  rw [UInt64.toNat_and, toNat_pred nonzero]
  exact Nat.lt_of_le_of_lt Nat.and_le_right (Nat.sub_one_lt (toNat_ne_zero nonzero))

/-- The positions of the set bits of a word, ascending: that of the lowest one, and then those of
the word in which this one is cleared. -/
def setBits (word : UInt64) : List Nat :=
  if word = 0 then [] else trailingZeros word :: setBits (word &&& (word - 1))
termination_by word.toNat
decreasing_by exact toNat_and_pred_lt ‹_›

/-- The word whose bits are those positions of which something holds. -/
def packBits (holds : Nat → Bool) : UInt64 :=
  (List.range 64).foldl
    (fun word position => if holds position then word ||| bit position else word) 0

/-- The number of ones among the binary digits of a number. -/
def ones (number : Nat) : Nat :=
  if number = 0 then 0 else number % 2 + ones (number / 2)

/-- The number of words that hold a row of so many columns. -/
def wordsPerRow (cols : Nat) : Nat :=
  (cols + 63) / 64

/-! ### Matrices -/

/-- **A matrix of bits**, row after row. -/
structure BitMatrix where
  rows : Nat
  cols : Nat
  words : Array UInt64
  size_words : words.size = rows * wordsPerRow cols
deriving DecidableEq

namespace BitMatrix

/-- The matrix without a set cell. -/
def empty (rows cols : Nat) : BitMatrix where
  rows := rows
  cols := cols
  words := Array.replicate (rows * wordsPerRow cols) 0
  size_words := Array.size_replicate

/-- The number of words of one row. -/
def stride (m : BitMatrix) : Nat :=
  wordsPerRow m.cols

/-- The word at a position, zero past the end. -/
def word (m : BitMatrix) (position : Nat) : UInt64 :=
  m.words.getD position 0

/-- Whether a cell is set; no cell outside the matrix is. -/
def get (m : BitMatrix) (row col : Nat) : Bool :=
  decide (row < m.rows) && decide (col < m.cols)
    && testBit (m.word (row * m.stride + col / 64)) (col % 64)

/-- The matrix with one more cell, if that lies inside. -/
def insert (m : BitMatrix) (row col : Nat) : BitMatrix :=
  if row < m.rows ∧ col < m.cols then
    { m with
      words := m.words.modify (row * m.stride + col / 64) fun word => word ||| bit (col % 64)
      size_words := by rw [Array.size_modify]; exact m.size_words }
  else m

/-- A word of a row, zero past the end of the matrix. -/
def rowWord (m : BitMatrix) (row index : Nat) : UInt64 :=
  m.word (row * m.stride + index)

/-- The set columns in the first words of a row, put in front of some that are known. -/
def columnsBefore (m : BitMatrix) (row : Nat) : Nat → List Nat → List Nat
  | 0, known => known
  | index + 1, known =>
    let found := (setBits (m.rowWord row index)).map fun position => index * 64 + position
    m.columnsBefore row index (found ++ known)

/-- The set columns of a row, ascending. -/
def columns (m : BitMatrix) (row : Nat) : List Nat :=
  m.columnsBefore row m.stride []

/-- The number of set columns of a row. -/
def count (m : BitMatrix) (row : Nat) : Nat :=
  m.stride.fold (fun index _ total => total + ones (m.rowWord row index).toNat) 0

/-- Whether a row and a row of another matrix have a set column in common. -/
def meets (m : BitMatrix) (row : Nat) (other : BitMatrix) (otherRow : Nat) : Bool :=
  (Nat.min m.stride other.stride).any fun index _ =>
    m.rowWord row index &&& other.rowWord otherRow index != 0

/-- The matrix with row `source` of another matrix poured into row `target`. -/
def unite (m : BitMatrix) (target : Nat) (other : BitMatrix) (source : Nat) : BitMatrix :=
  { m with
    words := m.words.mapIdx fun position word =>
      if target * m.stride ≤ position ∧ position < (target + 1) * m.stride then
        word ||| other.word (source * m.stride + (position - target * m.stride))
      else word
    size_words := by rw [Array.size_mapIdx]; exact m.size_words }

/-- The matrix with the listed cells set; cells outside are left out. -/
def ofCells (rows cols : Nat) (cells : List (Nat × Nat)) : BitMatrix :=
  cells.foldl (fun m cell => m.insert cell.1 cell.2) (empty rows cols)

/-- The bits of one word of the matrix of a relation. -/
def relationBit (cols : Nat) (related : Nat → Nat → Bool) (position bit : Nat) : Bool :=
  let col := position % wordsPerRow cols * 64 + bit
  decide (col < cols) && related (position / wordsPerRow cols) col

/-- The matrix of a relation. -/
def ofRelation (rows cols : Nat) (related : Nat → Nat → Bool) : BitMatrix where
  rows := rows
  cols := cols
  words := Array.ofFn fun position : Fin (rows * wordsPerRow cols) =>
    packBits (relationBit cols related position)
  size_words := Array.size_ofFn

/-- The set cells, row by row, each row ascending. -/
def cells (m : BitMatrix) : List (Nat × Nat) :=
  (List.range m.rows).flatMap fun row => (m.columns row).map fun col => (row, col)

/-- Whether the matrix is square and the relation symmetric. -/
def isSymmetric (m : BitMatrix) : Bool :=
  m.rows == m.cols
    && (List.range m.rows).all fun row => (m.columns row).all fun col => m.get col row

/-! ### Checked calls -/

/-- Whether the words of a matrix of the given dimensions, of eight bytes each, can be allocated. -/
def fitsMemory (rows cols : Nat) : Bool :=
  decide (8 * (rows * wordsPerRow cols) < allocationLimit)

/-- A matrix of the given dimensions, if it fits in memory. -/
def create (rows cols : Nat) : Except Abort BitMatrix :=
  if fitsMemory rows cols then .ok (empty rows cols) else .error .overflow

/-- Breaks off unless the words of a row lie in the matrix. -/
def requireWords (m : BitMatrix) (row : Nat) : Except Abort Unit :=
  if UInt64.size ≤ (row + 1) * m.stride then .error .overflow
  else if m.words.size < (row + 1) * m.stride then .error .outOfRange
  else .ok ()

/-- Breaks off unless a row number, and the one after it, can be turned into words of the
matrix. -/
def requireRow (m : BitMatrix) (row : Nat) : Except Abort Unit :=
  if UInt64.size ≤ row + 1 then .error .overflow else m.requireWords row

/-- Sets a cell and says whether it was unset before. -/
def set (m : BitMatrix) (row col : Nat) : Except Abort (BitMatrix × Bool) :=
  if row < m.rows ∧ col < m.cols then .ok (m.insert row col, !m.get row col)
  else .error .cellOutOfBounds

/-- Sets a cell and the one with row and column exchanged. -/
def setBoth (m : BitMatrix) (first second : Nat) : Except Abort BitMatrix := do
  let (half, _) ← m.set first second
  let (whole, _) ← half.set second first
  return whole

/-- Pours a row of another matrix of the same width into a row. -/
def uniteRow (m : BitMatrix) (target : Nat) (other : BitMatrix) (source : Nat) :
    Except Abort BitMatrix :=
  if m.cols ≠ other.cols then .error .columnCountMismatch
  else do
    m.requireWords target
    other.requireRow source
    return m.unite target other source

/-- Whether two rows share a set column; the matrices may differ in width. -/
def rowsMeet (m : BitMatrix) (row : Nat) (other : BitMatrix) (otherRow : Nat) :
    Except Abort Bool := do
  m.requireRow row
  other.requireRow otherRow
  return m.meets row other otherRow

/-- The set columns of a row. -/
def rowColumns (m : BitMatrix) (row : Nat) : Except Abort (List Nat) := do
  m.requireRow row
  return m.columns row

/-- The number of set columns of a row. -/
def rowSize (m : BitMatrix) (row : Nat) : Except Abort Nat := do
  m.requireRow row
  return m.count row

end BitMatrix

end StateSpace

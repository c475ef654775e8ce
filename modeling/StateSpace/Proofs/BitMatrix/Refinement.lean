/-
**Packed words refine a relation.**

* `BitMatrix.Filled` — a matrix that was created and then changed by calls, with the cells that
  these calls have put into it so far.
* `BitMatrix.Holds.of_set`, `BitMatrix.Holds.of_setBoth`, `BitMatrix.Holds.of_uniteRow` — what one
  call makes of a matrix that holds a relation.
* `BitMatrix.Filled.holds` — so a matrix holds the cells put into it, whatever the calls.
* `BitMatrix.refines_relation` — then every operation is the one on relations: no call inside the
  matrix breaks off, each adds the cells it should and no others, and tests and equality say what
  they say of relations.
-/

import StateSpace.Proofs.BitMatrix.Relation

namespace StateSpace

/-- A computation in two parts that returns: both do. -/
theorem bind_eq_ok {ε α β : Type} {computation : Except ε α} {next : α → Except ε β} {result : β}
    (call : computation >>= next = .ok result) :
    ∃ value, computation = .ok value ∧ next value = .ok result := by
  cases computation with
  | error failure => cases call
  | ok value => exact ⟨value, rfl, call⟩

namespace BitMatrix

variable {m m' other : BitMatrix} {rows cols rows' cols' row col target source : Nat}
  {related related' : Nat → Nat → Prop}

/-- **A matrix and the cells put into it**: it was created, and changed by calls that returned; the
matrices whose rows were poured into it came about in the same way. -/
inductive Filled : BitMatrix → (Nat → Nat → Prop) → Prop
  | create {rows cols : Nat} {m : BitMatrix} (numbered : rows < UInt64.size)
      (call : BitMatrix.create rows cols = .ok m) : Filled m fun _ _ => False
  | set {m m' : BitMatrix} {related : Nat → Nat → Prop} {row col : Nat} {fresh : Bool}
      (filled : Filled m related) (call : m.set row col = .ok (m', fresh)) :
      Filled m' fun r c => related r c ∨ r = row ∧ c = col
  | setBoth {m m' : BitMatrix} {related : Nat → Nat → Prop} {first second : Nat}
      (filled : Filled m related) (call : m.setBoth first second = .ok m') :
      Filled m' fun r c => related r c ∨ r = first ∧ c = second ∨ r = second ∧ c = first
  | uniteRow {m m' other : BitMatrix} {related related' : Nat → Nat → Prop} {target source : Nat}
      (filled : Filled m related) (filled' : Filled other related')
      (call : m.uniteRow target other source = .ok m') :
      Filled m' fun r c => related r c ∨ r = target ∧ related' source c

/-! ### One call -/

theorem create_eq_ok (call : create rows cols = .ok m) :
    fitsMemory rows cols = true ∧ m = empty rows cols := by
  unfold create at call
  split at call
  · next memory => exact ⟨memory, (Except.ok.inj call).symm⟩
  · cases call

theorem set_eq_ok {fresh : Bool} (call : m.set row col = .ok (m', fresh)) :
    (row < m.rows ∧ col < m.cols) ∧ m' = m.insert row col := by
  unfold set at call
  split at call
  · next inside => exact ⟨inside, (Prod.ext_iff.mp (Except.ok.inj call)).1.symm⟩
  · cases call

theorem requireWords_eq_ok (call : m.requireWords row = .ok ()) :
    (row + 1) * m.stride ≤ m.words.size := by
  unfold requireWords at call
  split at call
  · cases call
  · split at call
    · cases call
    · next stored => exact Nat.le_of_not_lt stored

theorem uniteRow_eq_ok (call : m.uniteRow target other source = .ok m') :
    m.cols = other.cols ∧ (target + 1) * m.stride ≤ m.words.size ∧
      m' = m.unite target other source := by
  unfold uniteRow at call
  split at call
  · cases call
  · next same =>
    obtain ⟨_, words, call⟩ := bind_eq_ok call
    obtain ⟨_, _, call⟩ := bind_eq_ok call
    exact ⟨Decidable.not_not.mp same, requireWords_eq_ok words, (Except.ok.inj call).symm⟩

/-- Setting a cell adds it. -/
theorem Holds.of_set {fresh : Bool} (holds : m.Holds rows cols related)
    (call : m.set row col = .ok (m', fresh)) :
    m'.Holds rows cols fun r c => related r c ∨ r = row ∧ c = col := by
  obtain ⟨⟨rowInside, colInside⟩, rfl⟩ := set_eq_ok call
  rw [holds.rows_eq] at rowInside
  rw [holds.cols_eq] at colInside
  exact holds.insert rowInside colInside

/-- Setting two cells is setting one after the other. -/
theorem Holds.of_setBoth {first second : Nat} (holds : m.Holds rows cols related)
    (call : m.setBoth first second = .ok m') :
    m'.Holds rows cols
      fun r c => related r c ∨ r = first ∧ c = second ∨ r = second ∧ c = first := by
  unfold setBoth at call
  obtain ⟨half, there, call⟩ := bind_eq_ok call
  obtain ⟨whole, back, call⟩ := bind_eq_ok call
  rw [← Except.ok.inj call]
  exact ((holds.of_set there).of_set back).congr fun _ _ => or_assoc

/-- Pouring a row into a row adds its cells there. If it has any, a row is at least one word wide,
and the target is one of the rows. -/
theorem Holds.of_uniteRow (holds : m.Holds rows cols related)
    (holds' : other.Holds rows' cols' related')
    (call : m.uniteRow target other source = .ok m') :
    m'.Holds rows cols fun r c => related r c ∨ r = target ∧ related' source c := by
  obtain ⟨sameCols, stored, rfl⟩ := uniteRow_eq_ok call
  obtain rfl : cols = cols' := by rw [← holds.cols_eq, sameCols, holds'.cols_eq]
  refine holds.unite holds' fun {col} poured => ?_
  have inside : col < m.cols := by
    rw [holds.cols_eq]
    exact (holds'.inside poured).2
  have positive : 0 < m.stride := Nat.zero_lt_of_lt (wordIndex_lt inside)
  rw [m.size_words] at stored
  rw [← holds.rows_eq]
  exact Nat.le_of_mul_le_mul_right stored positive

/-! ### Every sequence of calls -/

/-- **A matrix holds the cells put into it**, and its rows and words keep their numbers. -/
theorem Filled.holds (filled : Filled m related) :
    m.Holds m.rows m.cols related ∧ Addressable m.rows m.cols := by
  -- along the calls the dimensions stay those of the created matrix
  suffices created : ∃ rows cols, m.Holds rows cols related ∧ Addressable rows cols by
    obtain ⟨rows, cols, holds, addressable⟩ := created
    rw [holds.rows_eq, holds.cols_eq]
    exact ⟨holds, addressable⟩
  induction filled with
  | @create rows cols m numbered call =>
    obtain ⟨memory, rfl⟩ := create_eq_ok call
    exact ⟨rows, cols, holds_empty rows cols, numbered, memory⟩
  | set _ call ih =>
    obtain ⟨rows, cols, holds, addressable⟩ := ih
    exact ⟨rows, cols, holds.of_set call, addressable⟩
  | setBoth _ call ih =>
    obtain ⟨rows, cols, holds, addressable⟩ := ih
    exact ⟨rows, cols, holds.of_setBoth call, addressable⟩
  | uniteRow _ _ call ih ih' =>
    obtain ⟨rows, cols, holds, addressable⟩ := ih
    obtain ⟨_, _, holds', _⟩ := ih'
    exact ⟨rows, cols, holds.of_uniteRow holds' call, addressable⟩

/-- Two matrices that hold relations are equal if their dimensions and their relations are. -/
theorem Holds.eq_iff (holds : m.Holds m.rows m.cols related)
    (holds' : other.Holds other.rows other.cols related') :
    m = other ↔ m.rows = other.rows ∧ m.cols = other.cols ∧
      ∀ row col, related row col ↔ related' row col := by
  constructor
  · rintro rfl
    exact ⟨rfl, rfl, fun row col => holds.get_iff.symm.trans holds'.get_iff⟩
  · rintro ⟨sameRows, sameCols, same⟩
    rw [sameRows, sameCols] at holds
    exact holds.unique (holds'.congr fun row col => (same row col).symm)

/-- **Packed words refine a relation.** However a matrix was filled, no bit past its last column is
set and its cells are those that were put in. Inside the matrix no call breaks off. Setting a cell
adds this cell and tells whether it is new; setting it both ways adds two cells; pouring a row into
a row adds the cells of that row there and leaves every other row as it is; two rows meet if they
have a column in common, be the matrices as wide as they may. A matrix is symmetric if it is square
and its cells are, and two matrices are equal if their dimensions and their cells are. -/
theorem refines_relation (filled : Filled m related) (filled' : Filled other related') :
    (m.Tidy ∧ ∀ row col, m.get row col = true ↔ related row col) ∧
    (∀ row col, row < m.rows → col < m.cols → ∃ m' fresh, m.set row col = .ok (m', fresh) ∧
      (fresh = true ↔ ¬ related row col) ∧
      m'.Holds m.rows m.cols fun r c => related r c ∨ r = row ∧ c = col) ∧
    (∀ first second, first < m.rows ∧ second < m.cols → second < m.rows ∧ first < m.cols →
      ∃ m', m.setBoth first second = .ok m' ∧
        m'.Holds m.rows m.cols
          fun r c => related r c ∨ r = first ∧ c = second ∨ r = second ∧ c = first) ∧
    (∀ target source, m.cols = other.cols → target < m.rows → source < other.rows →
      ∃ m', m.uniteRow target other source = .ok m' ∧
        (m'.Holds m.rows m.cols fun r c => related r c ∨ r = target ∧ related' source c) ∧
        ∀ row index, row < m.rows → row ≠ target → index < m.stride →
          m'.rowWord row index = m.rowWord row index) ∧
    (∀ row row', row < m.rows → row' < other.rows →
      ∃ answer, m.rowsMeet row other row' = .ok answer ∧
        (answer = true ↔ ∃ col, related row col ∧ related' row' col)) ∧
    (m.isSymmetric = true ↔ m.rows = m.cols ∧ ∀ row col, related row col → related col row) ∧
    ((m == other) = true ↔ m.rows = other.rows ∧ m.cols = other.cols ∧
      ∀ row col, related row col ↔ related' row col) := by
  obtain ⟨holds, addressable⟩ := filled.holds
  obtain ⟨holds', addressable'⟩ := filled'.holds
  refine ⟨⟨holds.tidy, fun row col => holds.get_iff⟩, fun row col rowInside colInside => ?_,
    fun first second there back => ?_, fun target source sameCols targetInside sourceInside => ?_,
    fun row row' inside inside' => ?_, holds.isSymmetric_iff, ?_⟩
  · refine ⟨_, _, holds.set_eq rowInside colInside, ?_, holds.insert rowInside colInside⟩
    rw [Bool.not_eq_true', ← holds.get_iff, Bool.not_eq_true]
  · have call := holds.setBoth_eq there back
    exact ⟨_, call, holds.of_setBoth call⟩
  · rw [← sameCols] at holds' addressable'
    have call := holds.uniteRow_eq holds' addressable addressable' targetInside sourceInside
    refine ⟨_, call, holds.of_uniteRow holds' call, fun row index rowInside apart inRow => ?_⟩
    rw [rowWord_unite sameCols rowInside inRow, if_neg apart]
  · exact ⟨_, holds.rowsMeet_eq holds' addressable addressable' inside inside',
      holds.meets_iff holds'⟩
  · rw [beq_iff_eq, holds.eq_iff holds']

/-- Two rows of seventy columns: the last column of a first word, the first one of a second word,
and a row poured into the other one. -/
theorem refines_relation_twoRows :
    ∃ (m other : BitMatrix) (related related' : Nat → Nat → Prop),
      Filled m related ∧ Filled other related' ∧
      (m.get 0 63 = true ∧ m.get 1 63 = false) ∧
      (∃ m' fresh, m.set 1 64 = .ok (m', fresh) ∧ (fresh = true ↔ ¬ related 1 64) ∧
        m'.Holds m.rows m.cols fun r c => related r c ∨ r = 1 ∧ c = 64) ∧
      ∃ m', m.uniteRow 1 other 0 = .ok m' ∧
        m'.Holds m.rows m.cols fun r c => related r c ∨ r = 1 ∧ related' 0 c := by
  have created : create 2 70 = .ok (empty 2 70) := if_pos (by decide)
  have blank : Filled (empty 2 70) fun _ _ => False := .create (by decide) created
  have filled : Filled ((empty 2 70).insert 0 63) fun r c => False ∨ r = 0 ∧ c = 63 :=
    .set blank (if_pos (by decide))
  have refined := refines_relation filled filled
  have rows : ((empty 2 70).insert 0 63).rows = 2 := insert_rows _ _ _
  have cols : ((empty 2 70).insert 0 63).cols = 70 := insert_cols _ _ _
  refine ⟨_, _, _, _, filled, filled, ⟨?_, ?_⟩, ?_, ?_⟩
  · exact (refined.1.2 0 63).mpr (.inr ⟨rfl, rfl⟩)
  · rw [← Bool.not_eq_true, refined.1.2]
    decide
  · exact refined.2.1 1 64 (by rw [rows]; decide) (by rw [cols]; decide)
  · obtain ⟨m', call, holds, _⟩ := refined.2.2.2.1 1 0 rfl (by rw [rows]; decide)
      (by rw [rows]; decide)
    exact ⟨m', call, holds⟩

end BitMatrix

end StateSpace

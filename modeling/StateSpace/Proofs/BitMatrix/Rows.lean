/-
**Going over the rows of a bit matrix.**

* `BitMatrix.length_columns` — as many columns of a row are listed as its words have ones.
* `BitMatrix.pairwise_cells` — the cells are listed row by row (`BitMatrix.RowMajor`).
* `BitMatrix.rowColumns_exact` — however a matrix was filled, going over a row gives its set columns
  and no others, once each and in ascending order; their number is the size of the row, and the
  cells of all rows are listed in the order of the rows.
-/

import Mathlib.Data.List.Sort
import StateSpace.Proofs.BitMatrix.Refinement

namespace StateSpace

namespace BitMatrix

variable {m : BitMatrix} {rows cols row : Nat} {related : Nat → Nat → Prop}

/-! ### The size of a row -/

/-- Each word adds as many columns as it has ones. -/
theorem length_columnsBefore (m : BitMatrix) (row count : Nat) (known : List Nat) :
    (m.columnsBefore row count known).length
      = count.fold (fun index _ total => total + ones (m.rowWord row index).toNat) 0
        + known.length := by
  induction count generalizing known with
  | zero => exact (Nat.zero_add _).symm
  | succ index ih =>
    rw [columnsBefore, ih, Nat.fold_succ, List.length_append, List.length_map, length_setBits,
      Nat.add_assoc]

/-- **The ones of a row are its listed columns.** -/
theorem length_columns (m : BitMatrix) (row : Nat) : (m.columns row).length = m.count row :=
  m.length_columnsBefore row m.stride []

/-- Each row can be counted. -/
theorem Holds.rowSize_eq (holds : m.Holds rows cols related) (addressable : Addressable rows cols)
    (inside : row < rows) : m.rowSize row = .ok (m.columns row).length := by
  rw [rowSize, holds.requireRow addressable inside, length_columns]
  rfl

/-! ### The order of the cells -/

/-- **Row by row**, and in a row by columns. -/
def RowMajor (first second : Nat × Nat) : Prop :=
  first.1 < second.1 ∨ first.1 = second.1 ∧ first.2 < second.2

theorem pairwise_cells (m : BitMatrix) : m.cells.Pairwise RowMajor := by
  apply List.pairwise_flatMap.mpr
  constructor
  · intro row _
    rw [List.pairwise_map]
    exact (m.pairwise_columns row).imp fun less => .inr ⟨rfl, less⟩
  · apply List.pairwise_lt_range.imp
    intro row later less first here second there
    obtain ⟨_, _, rfl⟩ := List.mem_map.mp here
    obtain ⟨_, _, rfl⟩ := List.mem_map.mp there
    exact .inl less

/-! ### Every row of every matrix -/

/-- **Going over a row gives its set columns.** However a matrix was filled, each of its rows can be
gone over to its end. The columns come in strictly ascending order; they are those columns of the
matrix whose cell is set, and the size of the row is their number. The cells of all rows come in
strictly ascending order as well, and they are the set cells. -/
theorem rowColumns_exact (filled : Filled m related) :
    (∀ row, row < m.rows → ∃ listed, m.rowColumns row = .ok listed ∧
      listed.Pairwise (· < ·) ∧ (∀ col, col ∈ listed ↔ col < m.cols ∧ m.get row col = true) ∧
      m.rowSize row = .ok listed.length) ∧
    m.cells.Pairwise RowMajor ∧
    ∀ row col, (row, col) ∈ m.cells ↔ m.get row col = true := by
  obtain ⟨holds, addressable⟩ := filled.holds
  refine ⟨fun row inside => ?_, m.pairwise_cells, fun row col => ?_⟩
  · refine ⟨m.columns row, holds.rowColumns_eq addressable inside, m.pairwise_columns row, ?_,
      holds.rowSize_eq addressable inside⟩
    intro col
    rw [mem_columns holds.tidy]
    exact ⟨fun set => ⟨(get_inside set).2, set⟩, And.right⟩
  · rw [holds.mem_cells, holds.get_iff]

/-- Two rows of seventy columns. Those of the first row that are set lie on both sides of the end of
a word, and were set the later one first. -/
theorem rowColumns_exact_twoWords :
    ∃ (m : BitMatrix) (related : Nat → Nat → Prop), Filled m related ∧ 0 < m.rows ∧
      m.rowColumns 0 = .ok [63, 64] ∧ m.rowSize 0 = .ok 2 ∧ (1, 69) ∈ m.cells ∧
      m.cells.Pairwise RowMajor := by
  have blank : Filled (empty 2 70) fun _ _ => False := .create (by decide) (if_pos (by decide))
  have first : Filled ((empty 2 70).insert 1 69) fun r c => False ∨ r = 1 ∧ c = 69 :=
    .set blank (if_pos (by decide))
  have second : Filled (((empty 2 70).insert 1 69).insert 0 64)
      fun r c => (False ∨ r = 1 ∧ c = 69) ∨ r = 0 ∧ c = 64 :=
    .set first (if_pos (by decide))
  have filled : Filled ((((empty 2 70).insert 1 69).insert 0 64).insert 0 63)
      fun r c => ((False ∨ r = 1 ∧ c = 69) ∨ r = 0 ∧ c = 64) ∨ r = 0 ∧ c = 63 :=
    .set second (if_pos (by decide))
  obtain ⟨rows, ordered, cells⟩ := rowColumns_exact filled
  obtain ⟨listed, call, ascending, members, size⟩ := rows 0 (by decide)
  have same : listed = [63, 64] := by
    apply ascending.eq_of_mem_iff (by decide)
    intro col
    rw [members, filled.holds.1.get_iff, List.mem_pair]
    show col < 70 ∧ (((False ∨ 0 = 1 ∧ col = 69) ∨ 0 = 0 ∧ col = 64) ∨ 0 = 0 ∧ col = 63)
      ↔ col = 63 ∨ col = 64
    rw [false_or]
    omega
  have last : (1, 69) ∈ ((((empty 2 70).insert 1 69).insert 0 64).insert 0 63).cells := by
    rw [cells, filled.holds.1.get_iff]
    exact .inl (.inl (.inr ⟨rfl, rfl⟩))
  rw [same] at call size
  exact ⟨_, _, filled, by decide, call, size, last, ordered⟩

end BitMatrix

end StateSpace

/-
**Bit matrices hold finite relations.**

* `BitMatrix.Holds` — a matrix has given dimensions, no bit past its last column, and its set cells
  are the pairs of a relation. By `BitMatrix.Holds.unique` it is the only such matrix: the packed
  words of two rows with the same cells are the same.
* `BitMatrix.Holds.insert`, `BitMatrix.Holds.unite` — one more cell adds one pair, and a row poured
  into a row adds the pairs of that row and changes no other one.
* `BitMatrix.Addressable` — the rows and words of a matrix have 64-bit numbers. Calls inside such a
  matrix do not break off: `BitMatrix.Holds.set_eq`, `BitMatrix.Holds.setBoth_eq`,
  `BitMatrix.Holds.uniteRow_eq`, `BitMatrix.Holds.rowsMeet_eq`.
* `BitMatrix.pairwise_columns` — a row is listed in ascending order.
* `BitMatrix.Holds.isSymmetric_iff` — the test for symmetry.
-/

import StateSpace.Proofs.BitMatrix.Cells

namespace StateSpace

/-- A word is determined by its bits. -/
theorem eq_of_testBit_eq {first second : UInt64}
    (same : ∀ position, position < 64 → testBit first position = testBit second position) :
    first = second := by
  apply UInt64.toNat_inj.mp
  apply Nat.eq_of_testBit_eq
  intro position
  show testBit first position = testBit second position
  by_cases inside : position < 64
  · exact same position inside
  · have unset : ∀ word, testBit word position = false := by
      intro word
      rw [← Bool.not_eq_true]
      exact fun set => inside (lt_of_testBit set)
    rw [unset first, unset second]

namespace BitMatrix

/-! ### Relations -/

/-- **A matrix holds a relation**: it has the given dimensions, no bit past its last column is set,
and its set cells are the related pairs. -/
structure Holds (m : BitMatrix) (rows cols : Nat) (related : Nat → Nat → Prop) : Prop where
  rows_eq : m.rows = rows
  cols_eq : m.cols = cols
  tidy : m.Tidy
  get_iff : ∀ {row col : Nat}, m.get row col = true ↔ related row col

variable {m other : BitMatrix} {rows cols rows' cols' : Nat}
  {related related' : Nat → Nat → Prop} {row col row' : Nat}

theorem get_inside (set : m.get row col = true) : row < m.rows ∧ col < m.cols := by
  rw [get, Bool.and_eq_true, Bool.and_eq_true, decide_eq_true_eq, decide_eq_true_eq] at set
  exact set.1

/-- Related pairs lie inside the matrix. -/
theorem Holds.inside (holds : m.Holds rows cols related) (pair : related row col) :
    row < rows ∧ col < cols := by
  have set := get_inside (holds.get_iff.mpr pair)
  rwa [holds.rows_eq, holds.cols_eq] at set

theorem Holds.congr (holds : m.Holds rows cols related)
    (same : ∀ row col, related row col ↔ related' row col) : m.Holds rows cols related' where
  rows_eq := holds.rows_eq
  cols_eq := holds.cols_eq
  tidy := holds.tidy
  get_iff := holds.get_iff.trans (same _ _)

theorem holds_empty (rows cols : Nat) : (empty rows cols).Holds rows cols fun _ _ => False where
  rows_eq := rfl
  cols_eq := rfl
  tidy := tidy_empty rows cols
  get_iff := by
    intro row col
    simp [get_empty]

theorem word_of_getElem? {position : Nat} {word : UInt64} (found : m.words[position]? = some word) :
    m.word position = word := by
  rw [BitMatrix.word, Array.getD_eq_getD_getElem?, found, Option.getD_some]

/-- A bit of a row is a cell. -/
theorem Tidy.testBit_eq (tidy : m.Tidy) {index position : Nat} (inRow : index < m.stride)
    (inWord : position < 64) :
    testBit (m.rowWord row index) position = m.get row (index * 64 + position) := by
  have quotient : (index * 64 + position) / 64 = index := by omega
  have remainder : (index * 64 + position) % 64 = position := by omega
  rw [Bool.eq_iff_iff, tidy.get_eq, quotient, remainder]
  exact (and_iff_right inRow).symm

/-- **A relation is held by one matrix only.** -/
theorem Holds.unique (holds : m.Holds rows cols related) (holds' : other.Holds rows cols related) :
    m = other := by
  have sameRows : m.rows = other.rows := holds.rows_eq.trans holds'.rows_eq.symm
  have sameCols : m.cols = other.cols := holds.cols_eq.trans holds'.cols_eq.symm
  have sameStride : m.stride = other.stride := congrArg wordsPerRow sameCols
  have sizes : m.words.size = other.words.size := by
    rw [m.size_words, other.size_words, sameRows, sameCols]
  have words : m.words = other.words := by
    refine Array.ext sizes fun position inside inside' => ?_
    -- the word at a position is one of a row, and its bits are the cells of that row
    have positive : 0 < m.stride := by
      have words : 0 < m.rows * m.stride := m.size_words ▸ Nat.zero_lt_of_lt inside
      exact Nat.pos_of_mul_pos_left words
    have place : position / m.stride * m.stride + position % m.stride = position :=
      Nat.div_add_mod' position m.stride
    have inRow : position % m.stride < m.stride := Nat.mod_lt _ positive
    have first : m.words[position] = m.rowWord (position / m.stride) (position % m.stride) := by
      rw [rowWord, place, word_of_getElem? (Array.getElem?_eq_getElem inside)]
    have second : other.words[position]
        = other.rowWord (position / m.stride) (position % m.stride) := by
      rw [rowWord, ← sameStride, place, word_of_getElem? (Array.getElem?_eq_getElem inside')]
    rw [first, second]
    apply eq_of_testBit_eq
    intro bit inWord
    rw [holds.tidy.testBit_eq inRow inWord, holds'.tidy.testBit_eq (sameStride ▸ inRow) inWord,
      Bool.eq_iff_iff, holds.get_iff, holds'.get_iff]
  cases m
  cases other
  simp only [mk.injEq]
  exact ⟨sameRows, sameCols, words⟩

/-! ### One more cell, one more row -/

theorem Holds.insert (holds : m.Holds rows cols related) (rowInside : row < rows)
    (colInside : col < cols) :
    (m.insert row col).Holds rows cols fun r c => related r c ∨ r = row ∧ c = col where
  rows_eq := (insert_rows m row col).trans holds.rows_eq
  cols_eq := (insert_cols m row col).trans holds.cols_eq
  tidy := tidy_insert holds.tidy row col
  get_iff := by
    intro r c
    have inside : row < m.rows ∧ col < m.cols := by
      rw [holds.rows_eq, holds.cols_eq]
      exact ⟨rowInside, colInside⟩
    rw [get_insert holds.tidy, holds.get_iff, and_iff_left inside]

/-- A cell and the one with row and column exchanged. -/
theorem Holds.insertBoth {first second : Nat} (holds : m.Holds rows cols related)
    (there : first < rows ∧ second < cols) (back : second < rows ∧ first < cols) :
    ((m.insert first second).insert second first).Holds rows cols
      fun r c => (related r c ∨ r = first ∧ c = second) ∨ r = second ∧ c = first :=
  (holds.insert there.1 there.2).insert back.1 back.2

/-- The words of a matrix after a row was poured into a row. -/
theorem rowWord_unite {target source index : Nat} (sameCols : m.cols = other.cols)
    (rowInside : row < m.rows) (inRow : index < m.stride) :
    (m.unite target other source).rowWord row index
      = if row = target then m.rowWord row index ||| other.rowWord source index
        else m.rowWord row index := by
  have sameStride : other.stride = m.stride := congrArg wordsPerRow sameCols.symm
  have stored : row * m.stride + index < m.words.size := by
    rw [m.size_words]
    exact position_lt rowInside inRow
  have old : m.words[row * m.stride + index]? = some (m.rowWord row index) := by
    rw [rowWord, word_of_getElem? (Array.getElem?_eq_getElem stored),
      Array.getElem?_eq_getElem stored]
  have united : (m.unite target other source).words[row * m.stride + index]?
      = some (if target * m.stride ≤ row * m.stride + index ∧
          row * m.stride + index < (target + 1) * m.stride then
          m.rowWord row index
            ||| other.word (source * m.stride + (row * m.stride + index - target * m.stride))
        else m.rowWord row index) := by
    rw [unite, Array.getElem?_mapIdx, old]
    rfl
  rw [show (m.unite target other source).rowWord row index = _ from word_of_getElem? united]
  by_cases same : row = target
  · subst same
    have offset : row * m.stride + index - row * m.stride = index := by omega
    have before : row * m.stride + index < (row + 1) * m.stride := by
      rw [Nat.add_mul]
      omega
    rw [if_pos rfl, if_pos ⟨Nat.le_add_right _ _, before⟩, offset, ← sameStride]
    rfl
  · have outside : ¬ (target * m.stride ≤ row * m.stride + index ∧
        row * m.stride + index < (target + 1) * m.stride) := by
      rintro ⟨after, before⟩
      rcases Nat.lt_or_gt_of_ne same with less | more
      · have next : (row + 1) * m.stride ≤ target * m.stride := Nat.mul_le_mul_right _ less
        rw [Nat.add_mul] at next
        omega
      · have next : (target + 1) * m.stride ≤ row * m.stride := Nat.mul_le_mul_right _ more
        omega
    rw [if_neg same, if_neg outside]

/-- **A row poured into a row** adds its cells there and changes no other row. If it has any, the
target is one of the rows. -/
theorem Holds.unite {target source : Nat} (holds : m.Holds rows cols related)
    (holds' : other.Holds rows' cols related')
    (targetInside : ∀ {col}, related' source col → target < rows) :
    (m.unite target other source).Holds rows cols
      fun r c => related r c ∨ r = target ∧ related' source c := by
  have sameCols : m.cols = other.cols := holds.cols_eq.trans holds'.cols_eq.symm
  have sameStride : m.stride = other.stride := congrArg wordsPerRow sameCols
  have bit : ∀ {r c}, c / 64 < m.stride →
      (testBit ((m.unite target other source).rowWord r (c / 64)) (c % 64) = true ↔
        related r c ∨ r = target ∧ related' source c) := by
    intro r c inRow
    have cell : ∀ row, testBit (m.rowWord row (c / 64)) (c % 64) = true ↔ related row c := by
      intro row
      rw [← holds.get_iff, holds.tidy.get_eq, and_iff_right inRow]
    have cell' : testBit (other.rowWord source (c / 64)) (c % 64) = true ↔ related' source c := by
      rw [← holds'.get_iff, holds'.tidy.get_eq, and_iff_right (sameStride ▸ inRow)]
    by_cases rowInside : r < m.rows
    · rw [rowWord_unite sameCols rowInside inRow]
      by_cases same : r = target
      · rw [if_pos same, testBit_or, Bool.or_eq_true, cell, cell', and_iff_right same]
      · rw [if_neg same, cell]
        simp [same]
    · -- past the last row there is nothing, neither before nor after
      have beyond : (m.unite target other source).rows ≤ r := Nat.le_of_not_lt rowInside
      rw [rowWord_eq_zero beyond, testBit_zero]
      refine iff_of_false Bool.false_ne_true ?_
      rw [holds.rows_eq] at rowInside
      rintro (pair | ⟨rfl, poured⟩)
      · exact rowInside (holds.inside pair).1
      · exact rowInside (targetInside poured)
  have tidy : (m.unite target other source).Tidy := by
    intro r c inRow set
    show c < m.cols
    rw [holds.cols_eq]
    rcases (bit inRow).mp set with old | ⟨_, poured⟩
    · exact (holds.inside old).2
    · exact (holds'.inside poured).2
  refine ⟨holds.rows_eq, holds.cols_eq, tidy, fun {r c} => ?_⟩
  rw [tidy.get_eq]
  constructor
  · rintro ⟨inRow, set⟩
    exact (bit inRow).mp set
  · intro pair
    have inside : c < cols := by
      rcases pair with old | ⟨_, poured⟩
      · exact (holds.inside old).2
      · exact (holds'.inside poured).2
    have inRow : c / 64 < m.stride := wordIndex_lt (holds.cols_eq ▸ inside)
    exact ⟨inRow, (bit inRow).mpr pair⟩

/-- Two rows meet if they have a related column in common. -/
theorem Holds.meets_iff (holds : m.Holds rows cols related)
    (holds' : other.Holds rows' cols' related') :
    m.meets row other row' = true ↔ ∃ c, related row c ∧ related' row' c := by
  rw [BitMatrix.meets_iff holds.tidy holds'.tidy]
  exact exists_congr fun c => and_congr holds.get_iff holds'.get_iff

/-! ### Calls that do not break off -/

/-- The rows and the words of a matrix of the given dimensions have 64-bit numbers. -/
def Addressable (rows cols : Nat) : Prop :=
  rows < UInt64.size ∧ fitsMemory rows cols = true

theorem Holds.requireRow (holds : m.Holds rows cols related)
    (addressable : Addressable rows cols) (inside : row < rows) : m.requireRow row = .ok () := by
  obtain ⟨rfl, rfl, _, _⟩ := holds
  exact requireRow_eq inside addressable.1 addressable.2

/-- Each row can be read. -/
theorem Holds.rowColumns_eq (holds : m.Holds rows cols related)
    (addressable : Addressable rows cols) (inside : row < rows) :
    m.rowColumns row = .ok (m.columns row) := by
  rw [rowColumns, holds.requireRow addressable inside]
  rfl

theorem Holds.set_eq (holds : m.Holds rows cols related) (rowInside : row < rows)
    (colInside : col < cols) : m.set row col = .ok (m.insert row col, !m.get row col) := by
  obtain ⟨rfl, rfl, _, _⟩ := holds
  exact if_pos ⟨rowInside, colInside⟩

theorem Holds.setBoth_eq {first second : Nat} (holds : m.Holds rows cols related)
    (there : first < rows ∧ second < cols) (back : second < rows ∧ first < cols) :
    m.setBoth first second = .ok ((m.insert first second).insert second first) := by
  have half := holds.insert there.1 there.2
  simp only [setBoth, holds.set_eq there.1 there.2, half.set_eq back.1 back.2, bind, Except.bind,
    pure, Except.pure]

theorem Holds.uniteRow_eq {target source : Nat} (holds : m.Holds rows cols related)
    (holds' : other.Holds rows' cols related') (addressable : Addressable rows cols)
    (addressable' : Addressable rows' cols) (targetInside : target < rows)
    (sourceInside : source < rows') :
    m.uniteRow target other source = .ok (m.unite target other source) := by
  have sameCols : m.cols = other.cols := holds.cols_eq.trans holds'.cols_eq.symm
  have required := holds'.requireRow addressable' sourceInside
  obtain ⟨rfl, rfl, _, _⟩ := holds
  rw [uniteRow, if_neg (fun different => different sameCols),
    requireWords_eq targetInside addressable.2, required]
  rfl

theorem Holds.rowsMeet_eq (holds : m.Holds rows cols related)
    (holds' : other.Holds rows' cols' related') (addressable : Addressable rows cols)
    (addressable' : Addressable rows' cols') (inside : row < rows) (inside' : row' < rows') :
    m.rowsMeet row other row' = .ok (m.meets row other row') := by
  rw [rowsMeet, holds.requireRow addressable inside, holds'.requireRow addressable' inside']
  rfl

/-! ### Listing and symmetry -/

/-- The columns found in the first words of a row ascend if those found before do and come later. -/
theorem pairwise_columnsBefore (m : BitMatrix) (row count : Nat) (known : List Nat)
    (ordered : known.Pairwise (· < ·)) (later : ∀ col ∈ known, count * 64 ≤ col) :
    (m.columnsBefore row count known).Pairwise (· < ·) := by
  induction count generalizing known with
  | zero => exact ordered
  | succ index ih =>
    have found : ∀ col ∈ (setBits (m.rowWord row index)).map
        (fun position => index * 64 + position),
        index * 64 ≤ col ∧ col < (index + 1) * 64 := by
      intro col member
      obtain ⟨position, set, rfl⟩ := List.mem_map.mp member
      have inWord := lt_of_testBit (mem_setBits.mp set)
      omega
    refine ih _ (List.pairwise_append.mpr ⟨?_, ordered, fun first here second there => ?_⟩)
      fun col member => ?_
    · rw [List.pairwise_map]
      exact (pairwise_setBits _).imp fun less => Nat.add_lt_add_left less _
    · exact Nat.lt_of_lt_of_le (found first here).2 (later second there)
    · rcases List.mem_append.mp member with here | there
      · exact (found col here).1
      · have := later col there
        omega

/-- **A row is listed in ascending order.** -/
theorem pairwise_columns (m : BitMatrix) (row : Nat) : (m.columns row).Pairwise (· < ·) :=
  m.pairwise_columnsBefore row m.stride [] List.Pairwise.nil fun _ member => by cases member

theorem Holds.mem_columns (holds : m.Holds rows cols related) :
    col ∈ m.columns row ↔ related row col :=
  (BitMatrix.mem_columns holds.tidy).trans holds.get_iff

/-- The set cells are the related pairs. -/
theorem Holds.mem_cells (holds : m.Holds rows cols related) :
    (row, col) ∈ m.cells ↔ related row col := by
  simp only [cells, List.mem_flatMap, List.mem_range, List.mem_map, Prod.mk.injEq,
    holds.mem_columns]
  constructor
  · rintro ⟨_, _, _, pair, rfl, rfl⟩
    exact pair
  · intro pair
    exact ⟨row, holds.rows_eq ▸ (holds.inside pair).1, col, pair, rfl, rfl⟩

/-- **A matrix is symmetric** if it is square and its relation is. -/
theorem Holds.isSymmetric_iff (holds : m.Holds rows cols related) :
    m.isSymmetric = true ↔ rows = cols ∧ ∀ row col, related row col → related col row := by
  rw [isSymmetric, Bool.and_eq_true, beq_iff_eq, holds.rows_eq, holds.cols_eq, List.all_eq_true]
  refine and_congr_right fun _ => ?_
  simp only [List.mem_range, List.all_eq_true, holds.mem_columns, holds.get_iff]
  constructor
  · intro all row col pair
    exact all row (holds.inside pair).1 col pair
  · intro symmetric row _ col pair
    exact symmetric row col pair

end BitMatrix

end StateSpace

/-
**Bit matrices as relations.**

A cell of a matrix is a bit of a word, so that every operation is read through `BitMatrix.get`:

* `testBit_bit`, `testBit_or`, `testBit_packBits` — single words.
* `BitMatrix.Tidy` — no bit past the last column is set. The packed words alone do not say so, and
  listing a row or comparing two rows goes over whole words.
* `BitMatrix.get_insert`, `BitMatrix.get_ofCells`, `BitMatrix.get_ofRelation` — which cells a
  matrix has, and `BitMatrix.tidy_ofCells`, `BitMatrix.tidy_ofRelation` that it is tidy.
* `BitMatrix.mem_columns`, `BitMatrix.meets_iff` — a row of a tidy matrix lists exactly its set
  columns, and two rows meet exactly if they have a set column in common.
* `BitMatrix.rowColumns_eq` — no row of a matrix that fits in memory is out of range.
-/

import StateSpace.Proofs.BitMatrix.LowestBit

namespace StateSpace

/-! ### Words -/

/-- Only the least 64 bits of a word can be set. -/
theorem lt_of_testBit {word : UInt64} {position : Nat} (set : testBit word position = true) :
    position < 64 := by
  refine Nat.lt_of_not_le fun beyond => ?_
  have small : word.toNat < 2 ^ position :=
    Nat.lt_of_lt_of_le word.toNat_lt (Nat.pow_le_pow_right (by decide) beyond)
  rw [testBit, Nat.testBit_lt_two_pow small] at set
  cases set

@[simp] theorem testBit_zero (position : Nat) : testBit 0 position = false := by
  simp [testBit]

@[simp] theorem testBit_or (first second : UInt64) (position : Nat) :
    testBit (first ||| second) position = (testBit first position || testBit second position) := by
  simp [testBit]

@[simp] theorem testBit_and (first second : UInt64) (position : Nat) :
    testBit (first &&& second) position = (testBit first position && testBit second position) := by
  simp [testBit]

/-- A single bit is set at its own position only. -/
theorem testBit_bit {own : Nat} (inside : own < 64) (position : Nat) :
    testBit (bit own) position = decide (own = position) := by
  have small : 2 ^ own < 2 ^ 64 := Nat.pow_lt_pow_right (by decide) inside
  rw [testBit, bit, Nat.one_shiftLeft, UInt64.toNat_ofNat', Nat.mod_eq_of_lt small,
    Nat.testBit_two_pow]

/-- A word without a set bit is zero. -/
theorem exists_testBit {word : UInt64} (nonzero : word ≠ 0) :
    ∃ position, testBit word position = true :=
  Nat.exists_testBit_of_ne_zero (toNat_ne_zero nonzero)

/-- Packing some of the listed positions into a word sets these and keeps what was set. -/
theorem testBit_foldl_bit (holds : Nat → Bool) (positions : List Nat)
    (inside : ∀ p ∈ positions, p < 64) (word : UInt64) (position : Nat) :
    testBit (positions.foldl (fun w p => if holds p then w ||| bit p else w) word) position
      = (testBit word position || decide (position ∈ positions) && holds position) := by
  induction positions generalizing word with
  | nil => simp
  | cons first rest ih =>
    have firstInside : first < 64 := inside first List.mem_cons_self
    rw [List.foldl_cons, ih (fun p member => inside p (List.mem_cons_of_mem _ member))]
    by_cases same : position = first
    · subst same
      cases holds position <;> simp [testBit_bit firstInside]
    · have different : ¬ first = position := fun equal => same equal.symm
      cases holds first <;> simp [same, different, testBit_bit firstInside]

/-- The packed word has exactly the bits that hold. -/
theorem testBit_packBits (holds : Nat → Bool) {position : Nat} (inside : position < 64) :
    testBit (packBits holds) position = holds position := by
  rw [packBits, testBit_foldl_bit holds _ fun p member => List.mem_range.mp member]
  simp [inside]

namespace BitMatrix

/-! ### Where a cell is kept -/

/-- The word of a column inside the matrix is one of its row. -/
theorem wordIndex_lt {cols col : Nat} (inside : col < cols) : col / 64 < wordsPerRow cols := by
  unfold wordsPerRow
  omega

/-- Words of one row stand before those of the next. -/
theorem position_lt {row rows index width : Nat} (rowInside : row < rows)
    (indexInside : index < width) : row * width + index < rows * width := by
  have next : (row + 1) * width ≤ rows * width := Nat.mul_le_mul_right _ rowInside
  rw [Nat.add_mul] at next
  omega

/-- A word determines its row and its place there. -/
theorem position_inj {row row' index index' width : Nat} (inside : index < width)
    (inside' : index' < width) (same : row * width + index = row' * width + index') :
    row = row' ∧ index = index' := by
  have positive : 0 < width := Nat.lt_of_le_of_lt (Nat.zero_le _) inside
  have rows : row = row' := by
    have quotient := congrArg (· / width) same
    simpa only [Nat.mul_comm _ width, Nat.mul_add_div positive, Nat.div_eq_of_lt inside,
      Nat.div_eq_of_lt inside', Nat.add_zero] using quotient
  subst rows
  exact ⟨rfl, by omega⟩

/-- A column is determined by its word and its bit there. -/
theorem column_eq {col col' : Nat} (words : col / 64 = col' / 64) (bits : col % 64 = col' % 64) :
    col = col' := by
  omega

/-- Past the last row there are only zero words. -/
theorem rowWord_eq_zero {m : BitMatrix} {row index : Nat} (beyond : m.rows ≤ row) :
    m.rowWord row index = 0 := by
  have size := m.size_words
  have base : m.rows * m.stride ≤ row * m.stride := Nat.mul_le_mul_right _ beyond
  have outside : m.words.size ≤ row * m.stride + index := by
    rw [size, ← stride]
    omega
  rw [rowWord, word, Array.getD_eq_getD_getElem?, Array.getElem?_eq_none outside, Option.getD_none]

/-! ### Tidy matrices -/

/-- **No bit past the last column is set.** -/
def Tidy (m : BitMatrix) : Prop :=
  ∀ row col, col / 64 < m.stride → testBit (m.rowWord row (col / 64)) (col % 64) = true →
    col < m.cols

/-- A bit of a row of a tidy matrix is a cell. -/
theorem Tidy.get_eq {m : BitMatrix} (tidy : m.Tidy) {row col : Nat} :
    m.get row col = true ↔
      col / 64 < m.stride ∧ testBit (m.rowWord row (col / 64)) (col % 64) = true := by
  rw [get, Bool.and_eq_true, Bool.and_eq_true, decide_eq_true_eq, decide_eq_true_eq]
  constructor
  · rintro ⟨⟨_, inside⟩, set⟩
    exact ⟨wordIndex_lt inside, set⟩
  · rintro ⟨inRow, set⟩
    refine ⟨⟨Nat.lt_of_not_le fun beyond => ?_, tidy row col inRow set⟩, set⟩
    rw [rowWord_eq_zero beyond, testBit_zero] at set
    cases set

theorem rowWord_empty (rows cols row index : Nat) : (empty rows cols).rowWord row index = 0 := by
  simp only [rowWord, word, empty, Array.getD_eq_getD_getElem?, Array.getElem?_replicate]
  split <;> rfl

theorem tidy_empty (rows cols : Nat) : (empty rows cols).Tidy := by
  intro row col _ set
  rw [rowWord_empty, testBit_zero] at set
  cases set

theorem get_empty (rows cols row col : Nat) : (empty rows cols).get row col = false := by
  refine Bool.eq_false_iff.mpr fun set => ?_
  have bit := ((tidy_empty rows cols).get_eq.mp set).2
  rw [rowWord_empty, testBit_zero] at bit
  cases bit

/-! ### One more cell -/

theorem insert_rows (m : BitMatrix) (row col : Nat) : (m.insert row col).rows = m.rows := by
  unfold insert
  split <;> rfl

theorem insert_cols (m : BitMatrix) (row col : Nat) : (m.insert row col).cols = m.cols := by
  unfold insert
  split <;> rfl

/-- Inserting a cell sets its bit and no other one. -/
theorem testBit_rowWord_insert {m : BitMatrix} {row col : Nat} (rowInside : row < m.rows)
    (colInside : col < m.cols) {row' col' : Nat} (inRow : col' / 64 < m.stride) :
    testBit ((m.insert row col).rowWord row' (col' / 64)) (col' % 64)
      = (testBit (m.rowWord row' (col' / 64)) (col' % 64) || decide (row' = row ∧ col' = col)) := by
  have inRow₀ : col / 64 < m.stride := wordIndex_lt colInside
  have stored : row * m.stride + col / 64 < m.words.size := by
    rw [m.size_words]
    exact position_lt rowInside inRow₀
  have strideEq : (m.insert row col).stride = m.stride := by rw [stride, insert_cols, stride]
  unfold rowWord word
  rw [strideEq]
  simp only [insert, rowInside, colInside, and_self, if_true, Array.getD_eq_getD_getElem?,
    Array.getElem?_modify]
  by_cases samePosition : row * m.stride + col / 64 = row' * m.stride + col' / 64
  · obtain ⟨rfl, sameIndex⟩ := position_inj inRow₀ inRow samePosition
    have columns : col % 64 = col' % 64 ↔ col' = col :=
      ⟨fun bits => (column_eq sameIndex bits).symm, fun equal => equal ▸ rfl⟩
    rw [if_pos samePosition, ← samePosition, Array.getElem?_eq_getElem stored]
    simp [testBit_bit (Nat.mod_lt col (by decide)), columns]
  · have different : ¬ (row' = row ∧ col' = col) := by
      rintro ⟨rfl, rfl⟩
      exact samePosition rfl
    rw [if_neg samePosition]
    simp [different]

theorem tidy_insert {m : BitMatrix} (tidy : m.Tidy) (row col : Nat) : (m.insert row col).Tidy := by
  by_cases inside : row < m.rows ∧ col < m.cols
  · intro row' col' inRow set
    rw [stride, insert_cols] at inRow
    rw [testBit_rowWord_insert inside.1 inside.2 inRow, Bool.or_eq_true, decide_eq_true_eq] at set
    rw [insert_cols]
    rcases set with old | ⟨_, rfl⟩
    · exact tidy row' col' inRow old
    · exact inside.2
  · rw [insert, if_neg inside]
    exact tidy

/-- **The inserted cell is the only new one.** -/
theorem get_insert {m : BitMatrix} (tidy : m.Tidy) (row col row' col' : Nat) :
    (m.insert row col).get row' col' = true ↔
      m.get row' col' = true ∨ (row' = row ∧ col' = col) ∧ row < m.rows ∧ col < m.cols := by
  by_cases inside : row < m.rows ∧ col < m.cols
  · rw [(tidy_insert tidy row col).get_eq, tidy.get_eq, stride, insert_cols, ← stride]
    constructor
    · rintro ⟨inRow, set⟩
      rw [testBit_rowWord_insert inside.1 inside.2 inRow, Bool.or_eq_true,
        decide_eq_true_eq] at set
      exact set.imp (fun old => ⟨inRow, old⟩) fun same => ⟨same, inside⟩
    · rintro (⟨inRow, old⟩ | ⟨⟨rfl, rfl⟩, _⟩)
      · refine ⟨inRow, ?_⟩
        rw [testBit_rowWord_insert inside.1 inside.2 inRow, old, Bool.true_or]
      · have inRow : col' / 64 < m.stride := wordIndex_lt inside.2
        refine ⟨inRow, ?_⟩
        rw [testBit_rowWord_insert inside.1 inside.2 inRow]
        simp
  · rw [insert, if_neg inside]
    simp [inside]

/-! ### Matrices of cells and of relations -/

/-- Inserting cell after cell keeps the matrix tidy, its size and the earlier cells. -/
theorem foldl_insert_spec (cells : List (Nat × Nat)) {m : BitMatrix} (tidy : m.Tidy) :
    (cells.foldl (fun m cell => m.insert cell.1 cell.2) m).Tidy ∧
      ∀ row col, (cells.foldl (fun m cell => m.insert cell.1 cell.2) m).get row col = true ↔
        m.get row col = true ∨ (row, col) ∈ cells ∧ row < m.rows ∧ col < m.cols := by
  induction cells generalizing m with
  | nil => exact ⟨tidy, fun row col => by simp⟩
  | cons cell rest ih =>
    obtain ⟨restTidy, restGet⟩ := ih (tidy_insert tidy cell.1 cell.2)
    refine ⟨restTidy, fun row col => ?_⟩
    rw [List.foldl_cons, restGet, get_insert tidy, insert_rows, insert_cols, List.mem_cons]
    constructor
    · rintro ((old | ⟨⟨rfl, rfl⟩, inside⟩) | ⟨member, inside⟩)
      · exact .inl old
      · exact .inr ⟨.inl rfl, inside⟩
      · exact .inr ⟨.inr member, inside⟩
    · rintro (old | ⟨rfl | member, inside⟩)
      · exact .inl (.inl old)
      · exact .inl (.inr ⟨⟨rfl, rfl⟩, inside⟩)
      · exact .inr ⟨member, inside⟩

theorem tidy_ofCells (rows cols : Nat) (cells : List (Nat × Nat)) :
    (ofCells rows cols cells).Tidy :=
  (foldl_insert_spec cells (tidy_empty rows cols)).1

/-- **A matrix of cells has those of them that lie inside.** -/
theorem get_ofCells {rows cols : Nat} {cells : List (Nat × Nat)} {row col : Nat} :
    (ofCells rows cols cells).get row col = true ↔
      (row, col) ∈ cells ∧ row < rows ∧ col < cols := by
  have inserted := (foldl_insert_spec cells (tidy_empty rows cols)).2 row col
  rw [get_empty] at inserted
  exact inserted.trans ⟨fun either => either.resolve_left (by simp), Or.inr⟩

/-- A bit of the matrix of a relation. -/
theorem testBit_rowWord_ofRelation {rows cols : Nat} {related : Nat → Nat → Bool} {row col : Nat}
    (rowInside : row < rows) (inRow : col / 64 < wordsPerRow cols) :
    testBit ((ofRelation rows cols related).rowWord row (col / 64)) (col % 64)
      = (decide (col < cols) && related row col) := by
  have positive : 0 < wordsPerRow cols := Nat.lt_of_le_of_lt (Nat.zero_le _) inRow
  have stored : row * wordsPerRow cols + col / 64 < rows * wordsPerRow cols :=
    position_lt rowInside inRow
  have wordAt : (ofRelation rows cols related).rowWord row (col / 64)
      = packBits (relationBit cols related (row * wordsPerRow cols + col / 64)) := by
    simp only [rowWord, word, ofRelation, stride, Array.getD_eq_getD_getElem?]
    rw [Array.getElem?_ofFn, dif_pos stored, Option.getD_some]
  have quotient : (row * wordsPerRow cols + col / 64) / wordsPerRow cols = row := by
    rw [Nat.mul_comm, Nat.mul_add_div positive, Nat.div_eq_of_lt inRow, Nat.add_zero]
  have remainder : (row * wordsPerRow cols + col / 64) % wordsPerRow cols = col / 64 := by
    rw [Nat.mul_comm, Nat.mul_add_mod, Nat.mod_eq_of_lt inRow]
  have column : col / 64 * 64 + col % 64 = col := by omega
  rw [wordAt, testBit_packBits _ (Nat.mod_lt col (by decide)), relationBit]
  simp only [quotient, remainder, column]

theorem tidy_ofRelation (rows cols : Nat) (related : Nat → Nat → Bool) :
    (ofRelation rows cols related).Tidy := by
  intro row col inRow set
  by_cases rowInside : row < rows
  · have inRow : col / 64 < wordsPerRow cols := inRow
    rw [testBit_rowWord_ofRelation rowInside inRow, Bool.and_eq_true, decide_eq_true_eq] at set
    exact set.1
  · rw [rowWord_eq_zero (Nat.le_of_not_lt rowInside), testBit_zero] at set
    cases set

/-- **The matrix of a relation has the related pairs that lie inside.** -/
theorem get_ofRelation {rows cols : Nat} {related : Nat → Nat → Bool} {row col : Nat} :
    (ofRelation rows cols related).get row col = true ↔
      row < rows ∧ col < cols ∧ related row col = true := by
  by_cases rowInside : row < rows
  · rw [(tidy_ofRelation rows cols related).get_eq]
    constructor
    · rintro ⟨inRow, set⟩
      have inRow : col / 64 < wordsPerRow cols := inRow
      rw [testBit_rowWord_ofRelation rowInside inRow, Bool.and_eq_true, decide_eq_true_eq] at set
      exact ⟨rowInside, set⟩
    · rintro ⟨_, colInside, holds⟩
      refine ⟨wordIndex_lt colInside, ?_⟩
      rw [testBit_rowWord_ofRelation rowInside (wordIndex_lt colInside), holds]
      simp [colInside]
  · simp [get, ofRelation, rowInside]

/-! ### Rows -/

/-- The columns found in the first words of a row. -/
theorem mem_columnsBefore (m : BitMatrix) (row count : Nat) (known : List Nat) (col : Nat) :
    col ∈ m.columnsBefore row count known ↔
      (col / 64 < count ∧ testBit (m.rowWord row (col / 64)) (col % 64) = true) ∨ col ∈ known := by
  induction count generalizing known with
  | zero => simp [columnsBefore]
  | succ index ih =>
    have found : col ∈ (setBits (m.rowWord row index)).map (fun position => index * 64 + position)
        ↔ col / 64 = index ∧ testBit (m.rowWord row (col / 64)) (col % 64) = true := by
      simp only [List.mem_map, mem_setBits]
      constructor
      · rintro ⟨position, set, rfl⟩
        have inside := lt_of_testBit set
        have quotient : (index * 64 + position) / 64 = index := by omega
        have remainder : (index * 64 + position) % 64 = position := by omega
        rw [quotient, remainder]
        exact ⟨rfl, set⟩
      · rintro ⟨rfl, set⟩
        exact ⟨col % 64, set, by omega⟩
    rw [columnsBefore, ih, List.mem_append, found]
    constructor
    · rintro (⟨earlier, set⟩ | ⟨here, set⟩ | member)
      · exact .inl ⟨by omega, set⟩
      · exact .inl ⟨by omega, set⟩
      · exact .inr member
    · rintro (⟨inside, set⟩ | member)
      · rcases Nat.lt_succ_iff_lt_or_eq.mp inside with earlier | here
        · exact .inl ⟨earlier, set⟩
        · exact .inr (.inl ⟨here, set⟩)
      · exact .inr (.inr member)

/-- **A row lists exactly its set columns.** -/
theorem mem_columns {m : BitMatrix} (tidy : m.Tidy) {row col : Nat} :
    col ∈ m.columns row ↔ m.get row col = true := by
  rw [columns, mem_columnsBefore, tidy.get_eq]
  simp

/-- A bounded search succeeds exactly if something is found. -/
theorem natAny_iff {count : Nat} {holds : Nat → Bool} :
    (count.any fun index _ => holds index) = true ↔
      ∃ index, index < count ∧ holds index = true := by
  induction count with
  | zero => simp
  | succ count ih =>
    rw [Nat.any_succ, Bool.or_eq_true, ih]
    constructor
    · rintro (⟨index, inside, found⟩ | found)
      · exact ⟨index, by omega, found⟩
      · exact ⟨count, by omega, found⟩
    · rintro ⟨index, inside, found⟩
      rcases Nat.lt_succ_iff_lt_or_eq.mp inside with earlier | rfl
      · exact .inl ⟨index, earlier, found⟩
      · exact .inr found

/-- **Two rows meet exactly if they have a set column in common.** -/
theorem meets_iff {m other : BitMatrix} (tidy : m.Tidy) (otherTidy : other.Tidy)
    {row otherRow : Nat} :
    m.meets row other otherRow = true ↔
      ∃ col, m.get row col = true ∧ other.get otherRow col = true := by
  rw [meets, natAny_iff]
  constructor
  · rintro ⟨index, inside, common⟩
    obtain ⟨position, set⟩ := exists_testBit (bne_iff_ne.mp common)
    rw [testBit_and, Bool.and_eq_true] at set
    have small := lt_of_testBit set.1
    have quotient : (index * 64 + position) / 64 = index := by omega
    have remainder : (index * 64 + position) % 64 = position := by omega
    have bounds : index < m.stride ∧ index < other.stride := Nat.lt_min.mp inside
    refine ⟨index * 64 + position, tidy.get_eq.mpr ?_, otherTidy.get_eq.mpr ?_⟩
    · rw [quotient, remainder]
      exact ⟨bounds.1, set.1⟩
    · rw [quotient, remainder]
      exact ⟨bounds.2, set.2⟩
  · rintro ⟨col, here, there⟩
    obtain ⟨inRow, set⟩ := tidy.get_eq.mp here
    obtain ⟨inOther, otherSet⟩ := otherTidy.get_eq.mp there
    refine ⟨col / 64, Nat.lt_min.mpr ⟨inRow, inOther⟩, bne_iff_ne.mpr fun zero => ?_⟩
    have both := congrArg (testBit · (col % 64)) zero
    simp [set, otherSet] at both

/-! ### Rows in range -/

theorem foldl_insert_dims (cells : List (Nat × Nat)) (m : BitMatrix) :
    (cells.foldl (fun m cell => m.insert cell.1 cell.2) m).rows = m.rows ∧
      (cells.foldl (fun m cell => m.insert cell.1 cell.2) m).cols = m.cols := by
  induction cells generalizing m with
  | nil => exact ⟨rfl, rfl⟩
  | cons cell rest ih =>
    obtain ⟨rows, cols⟩ := ih (m.insert cell.1 cell.2)
    exact ⟨rows.trans (insert_rows ..), cols.trans (insert_cols ..)⟩

@[simp] theorem ofCells_rows (rows cols : Nat) (cells : List (Nat × Nat)) :
    (ofCells rows cols cells).rows = rows :=
  (foldl_insert_dims cells (empty rows cols)).1

@[simp] theorem ofCells_cols (rows cols : Nat) (cells : List (Nat × Nat)) :
    (ofCells rows cols cells).cols = cols :=
  (foldl_insert_dims cells (empty rows cols)).2

/-- As many rows as columns that fit in memory can be numbered with 64 bits. -/
theorem lt_size_of_fitsMemory {count : Nat} (square : fitsMemory count count = true) :
    count < UInt64.size := by
  have words : 8 * (count * wordsPerRow count) < 9223372036854775808 := of_decide_eq_true square
  have size : UInt64.size = 18446744073709551616 := rfl
  rcases Nat.eq_zero_or_pos count with none | some
  · omega
  · have row : 1 ≤ wordsPerRow count := by
      unfold wordsPerRow
      omega
    have le := Nat.mul_le_mul_left count row
    omega

/-- The words of a row of a matrix that fits in memory can be addressed. -/
theorem requireWords_eq {m : BitMatrix} {row : Nat} (inside : row < m.rows)
    (memory : fitsMemory m.rows m.cols = true) : m.requireWords row = .ok () := by
  have words : 8 * (m.rows * m.stride) < 9223372036854775808 := of_decide_eq_true memory
  have stored : (row + 1) * m.stride ≤ m.rows * m.stride := Nat.mul_le_mul_right _ inside
  have size : m.words.size = m.rows * m.stride := m.size_words
  have limit : UInt64.size = 18446744073709551616 := rfl
  rw [requireWords, if_neg (by omega), if_neg (by omega)]

theorem requireRow_eq {m : BitMatrix} {row : Nat} (inside : row < m.rows)
    (numbered : m.rows < UInt64.size) (memory : fitsMemory m.rows m.cols = true) :
    m.requireRow row = .ok () := by
  rw [requireRow, if_neg (by omega), requireWords_eq inside memory]

/-- **A row of a matrix that fits in memory is listed** without breaking off. -/
theorem rowColumns_eq {m : BitMatrix} {row : Nat} (inside : row < m.rows)
    (numbered : m.rows < UInt64.size) (memory : fitsMemory m.rows m.cols = true) :
    m.rowColumns row = .ok (m.columns row) := by
  rw [rowColumns, requireRow_eq inside numbered memory]
  rfl

end BitMatrix

end StateSpace

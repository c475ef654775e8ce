/-
**What the static relations say of a description.**

The declared footprints are read off a description by number: `TransitionSystem.Writes`, `Reads`,
`GuardReads`, `HasGuard`, `HasTag`, `Excludes` and `Enables`. For a well-formed description every
matrix of the analysis is the relation it stands for:

* `Analysis.mem_guardsOf`, `Analysis.mem_enablersOf` — the guards of a transition, and the
  transitions that can make a guard true, which `Analysis.enablingSet_eq` lists.
* `Analysis.mem_processesOf` — the process tags of a transition.
* `Analysis.get_dependent_iff`, `Analysis.get_conflict_iff`, `Analysis.get_neverCoenabled_iff` —
  dependence, conflicts, and pairs that are never enabled together.
* `Analysis.mem_interference_iff` — what a reduction walks along, `TransitionSystem.Interferes`;
  `Analysis.mem_interference` and `Analysis.mem_interference_of_process` are the two ways into it.
-/

import StateSpace.Proofs.Analysis.WellFormed
import StateSpace.Proofs.BitMatrix.Cells

namespace StateSpace

namespace TransitionSystem

/-! ### Declared footprints -/

/-- Transition `t` is declared to write variable `v`. -/
def Writes (s : TransitionSystem) (t v : Nat) : Prop :=
  ∃ transition, s.transitions[t]? = some transition ∧ v ∈ transition.writes

/-- Guard `g` is declared to read variable `v`. -/
def GuardReads (s : TransitionSystem) (g v : Nat) : Prop :=
  ∃ guard, s.guards[g]? = some guard ∧ v ∈ guard.reads

/-- Guard `g` is one of those of transition `t`. -/
def HasGuard (s : TransitionSystem) (t g : Nat) : Prop :=
  ∃ transition, s.transitions[t]? = some transition ∧ g ∈ transition.guards

/-- Transition `t` reads variable `v`, in its update or in one of its guards. -/
def Reads (s : TransitionSystem) (t v : Nat) : Prop :=
  (∃ transition, s.transitions[t]? = some transition ∧ v ∈ transition.reads) ∨
    ∃ g, s.HasGuard t g ∧ s.GuardReads g v

/-- Transition `t` carries the tag of a process. -/
def HasTag (s : TransitionSystem) (t process : Nat) : Prop :=
  ∃ transition, s.transitions[t]? = some transition ∧ process ∈ transition.processes

/-- Two guards are declared to exclude one another. -/
def Excludes (s : TransitionSystem) (g h : Nat) : Prop :=
  (g, h) ∈ s.exclusiveGuards ∨ (h, g) ∈ s.exclusiveGuards

/-- Transition `t` can make guard `g` true: it is declared so, or nothing is declared and it writes
what the guard reads. -/
def Enables (s : TransitionSystem) (t g : Nat) : Prop :=
  ∃ guard, s.guards[g]? = some guard ∧
    match guard.enablers with
    | some listed => t ∈ listed
    | none => ∃ v ∈ guard.reads, s.Writes t v

/-- One of two transitions writes what the other reads or writes. -/
def Dependent (s : TransitionSystem) (t u : Nat) : Prop :=
  ∃ v, s.Writes t v ∧ s.Reads u v ∨ s.Writes t v ∧ s.Writes u v ∨ s.Writes u v ∧ s.Reads t v

/-- Two different transitions have guards that exclude one another. -/
def NeverCoenabled (s : TransitionSystem) (t u : Nat) : Prop :=
  t ≠ u ∧ ∃ g h, s.HasGuard t g ∧ s.HasGuard u h ∧ s.Excludes g h

/-- Two different transitions write a common variable. -/
def Conflicts (s : TransitionSystem) (t u : Nat) : Prop :=
  t ≠ u ∧ ∃ v, s.Writes t v ∧ s.Writes u v

/-- **Two different transitions that may be enabled together** and depend on one another or, if
`processLocal`, have a process in common. -/
def Interferes (s : TransitionSystem) (processLocal : Bool) (t u : Nat) : Prop :=
  t ≠ u ∧ ¬ s.NeverCoenabled t u ∧
    (s.Dependent t u ∨ processLocal = true ∧ ∃ process, s.HasTag t process ∧ s.HasTag u process)

theorem Writes.lt {s : TransitionSystem} {t v : Nat} (writes : s.Writes t v) :
    t < s.transitions.size := by
  obtain ⟨transition, found, _⟩ := writes
  exact (Array.getElem?_eq_some_iff.mp found).1

theorem HasGuard.lt {s : TransitionSystem} {t g : Nat} (has : s.HasGuard t g) :
    t < s.transitions.size := by
  obtain ⟨transition, found, _⟩ := has
  exact (Array.getElem?_eq_some_iff.mp found).1

theorem HasTag.lt {s : TransitionSystem} {t process : Nat} (tag : s.HasTag t process) :
    t < s.transitions.size := by
  obtain ⟨transition, found, _⟩ := tag
  exact (Array.getElem?_eq_some_iff.mp found).1

theorem Reads.lt {s : TransitionSystem} {t v : Nat} (reads : s.Reads t v) :
    t < s.transitions.size := by
  rcases reads with ⟨transition, found, _⟩ | ⟨g, has, _⟩
  · exact (Array.getElem?_eq_some_iff.mp found).1
  · exact has.lt

/-- What a transition reads is a variable of the system. -/
theorem Reads.lt_variableCount {s : TransitionSystem} (wellFormed : s.WellFormed) {t v : Nat}
    (reads : s.Reads t v) : v < s.variableCount := by
  rcases reads with ⟨transition, found, own⟩ | ⟨g, _, guard, found, readsIt⟩
  · exact (wellFormed.transitions found).reads v own
  · exact (wellFormed.guards found).reads v readsIt

/-- What can make a guard true is a transition of the system. -/
theorem Enables.lt {s : TransitionSystem} (wellFormed : s.WellFormed) {t g : Nat}
    (enables : s.Enables t g) : t < s.transitions.size := by
  obtain ⟨guard, found, able⟩ := enables
  cases declared : guard.enablers with
  | some listed =>
    rw [declared] at able
    exact (wellFormed.guards found).enablers t (by rw [declared]; exact able)
  | none =>
    rw [declared] at able
    obtain ⟨v, _, writes⟩ := able
    exact writes.lt

theorem Dependent.symm {s : TransitionSystem} {t u : Nat} (dependent : s.Dependent t u) :
    s.Dependent u t := by
  obtain ⟨v, both | ⟨first, second⟩ | both⟩ := dependent
  · exact ⟨v, .inr (.inr both)⟩
  · exact ⟨v, .inr (.inl ⟨second, first⟩)⟩
  · exact ⟨v, .inl both⟩

theorem Dependent.lt {s : TransitionSystem} {t u : Nat} (dependent : s.Dependent t u) :
    t < s.transitions.size ∧ u < s.transitions.size := by
  obtain ⟨v, both | both | both⟩ := dependent
  · exact ⟨both.1.lt, both.2.lt⟩
  · exact ⟨both.1.lt, both.2.lt⟩
  · exact ⟨both.2.lt, both.1.lt⟩

theorem NeverCoenabled.symm {s : TransitionSystem} {t u : Nat} (never : s.NeverCoenabled t u) :
    s.NeverCoenabled u t := by
  obtain ⟨different, g, h, has, hasOther, excludes⟩ := never
  exact ⟨different.symm, h, g, hasOther, has, excludes.symm⟩

/-- Interference is mutual. -/
theorem Interferes.symm {s : TransitionSystem} {processLocal : Bool} {t u : Nat}
    (interferes : s.Interferes processLocal t u) : s.Interferes processLocal u t := by
  obtain ⟨different, coenabled, dependent | ⟨asked, process, tag, tag'⟩⟩ := interferes
  · exact ⟨different.symm, fun never => coenabled never.symm, .inl dependent.symm⟩
  · exact ⟨different.symm, fun never => coenabled never.symm, .inr ⟨asked, process, tag', tag⟩⟩

theorem Interferes.lt {s : TransitionSystem} {processLocal : Bool} {t u : Nat}
    (interferes : s.Interferes processLocal t u) :
    t < s.transitions.size ∧ u < s.transitions.size := by
  obtain ⟨_, _, dependent | ⟨_, process, tag, tag'⟩⟩ := interferes
  · exact dependent.lt
  · exact ⟨tag.lt, tag'.lt⟩

/-! ### Matrices of rows -/

/-- The cells of rows given as lists of columns. -/
theorem mem_rowCells {rows : List (List Nat)} {row col : Nat} :
    (row, col) ∈ rowCells rows ↔ ∃ columns, rows[row]? = some columns ∧ col ∈ columns := by
  simp only [rowCells, List.mem_flatMap, List.mem_map, Prod.mk.injEq, Prod.exists]
  constructor
  · rintro ⟨columns, row', member, col', inside, rfl, rfl⟩
    exact ⟨columns, List.mem_zipIdx_iff_getElem?.mp member, inside⟩
  · rintro ⟨columns, found, inside⟩
    exact ⟨columns, row, List.mem_zipIdx_iff_getElem?.mpr found, col, inside, rfl, rfl⟩

/-- A matrix whose rows are computed from the entries of an array has in each row what is computed
from its entry. -/
theorem get_ofCells_rows {α : Type} {entries : Array α} {cols row col : Nat} {f : α → List Nat}
    (inside : ∀ {entry}, entries[row]? = some entry → col ∈ f entry → col < cols) :
    (BitMatrix.ofCells entries.size cols (rowCells (entries.toList.map f))).get row col = true ↔
      ∃ entry, entries[row]? = some entry ∧ col ∈ f entry := by
  rw [BitMatrix.get_ofCells, mem_rowCells, List.getElem?_map, Array.getElem?_toList]
  constructor
  · rintro ⟨⟨columns, found, member⟩, _⟩
    obtain ⟨entry, at_, rfl⟩ := Option.map_eq_some_iff.mp found
    exact ⟨entry, at_, member⟩
  · rintro ⟨entry, found, member⟩
    refine ⟨⟨f entry, by rw [found]; rfl, member⟩, ?_, inside found member⟩
    exact (Array.getElem?_eq_some_iff.mp found).1

section Matrices

variable {s : TransitionSystem}

theorem get_writeMatrix (wellFormed : s.WellFormed) {t v : Nat} :
    s.writeMatrix.get t v = true ↔ s.Writes t v :=
  get_ofCells_rows fun found member => (wellFormed.transitions found).writes v member

theorem get_guardReadMatrix (wellFormed : s.WellFormed) {g v : Nat} :
    s.guardReadMatrix.get g v = true ↔ s.GuardReads g v :=
  get_ofCells_rows fun found member => (wellFormed.guards found).reads v member

/-- The variables that the guards of a transition read. -/
theorem mem_guardReads {transition : Transition} {v : Nat} :
    v ∈ s.guardReads transition ↔ ∃ g ∈ transition.guards, s.GuardReads g v := by
  simp only [guardReads, List.mem_flatMap]
  refine exists_congr fun g => and_congr_right fun _ => ?_
  unfold GuardReads
  cases s.guards[g]? <;> simp

theorem get_readMatrix (wellFormed : s.WellFormed) {t v : Nat} :
    s.readMatrix.get t v = true ↔ s.Reads t v := by
  have rows : s.readMatrix.get t v = true ↔
      ∃ transition, s.transitions[t]? = some transition ∧
        v ∈ transition.reads ++ s.guardReads transition := by
    refine get_ofCells_rows fun found member => ?_
    rcases List.mem_append.mp member with own | read
    · exact (wellFormed.transitions found).reads v own
    · obtain ⟨g, _, guard, guardFound, readsIt⟩ := mem_guardReads.mp read
      exact (wellFormed.guards guardFound).reads v readsIt
  rw [rows]
  constructor
  · rintro ⟨transition, found, member⟩
    rcases List.mem_append.mp member with own | read
    · exact .inl ⟨transition, found, own⟩
    · obtain ⟨g, has, readsIt⟩ := mem_guardReads.mp read
      exact .inr ⟨g, ⟨transition, found, has⟩, readsIt⟩
  · rintro (⟨transition, found, own⟩ | ⟨g, ⟨transition, found, has⟩, readsIt⟩)
    · exact ⟨transition, found, List.mem_append.mpr (.inl own)⟩
    · exact ⟨transition, found, List.mem_append.mpr (.inr (mem_guardReads.mpr ⟨g, has, readsIt⟩))⟩

theorem get_exclusiveMatrix (wellFormed : s.WellFormed) {g h : Nat} :
    s.exclusiveMatrix.get g h = true ↔ s.Excludes g h := by
  rw [exclusiveMatrix, BitMatrix.get_ofCells, List.mem_append, List.mem_map]
  constructor
  · rintro ⟨forward | ⟨pair, member, swapped⟩, _⟩
    · exact .inl forward
    · rw [← Prod.swap_swap pair, swapped] at member
      exact .inr member
  · rintro (forward | backward)
    · obtain ⟨first, second, _⟩ := wellFormed.exclusive _ forward
      exact ⟨.inl forward, first, second⟩
    · obtain ⟨first, second, _⟩ := wellFormed.exclusive _ backward
      exact ⟨.inr ⟨(h, g), backward, rfl⟩, second, first⟩

theorem tidy_writeMatrix : s.writeMatrix.Tidy :=
  BitMatrix.tidy_ofCells _ _ _

theorem tidy_readMatrix : s.readMatrix.Tidy :=
  BitMatrix.tidy_ofCells _ _ _

theorem tidy_guardReadMatrix : s.guardReadMatrix.Tidy :=
  BitMatrix.tidy_ofCells _ _ _

/-- Two rows of footprints meet if both mention a variable. -/
theorem meets_write_read (wellFormed : s.WellFormed) {t u : Nat} :
    s.writeMatrix.meets t s.readMatrix u = true ↔ ∃ v, s.Writes t v ∧ s.Reads u v := by
  rw [BitMatrix.meets_iff tidy_writeMatrix tidy_readMatrix]
  exact exists_congr fun v => and_congr (get_writeMatrix wellFormed) (get_readMatrix wellFormed)

theorem meets_write_write (wellFormed : s.WellFormed) {t u : Nat} :
    s.writeMatrix.meets t s.writeMatrix u = true ↔ ∃ v, s.Writes t v ∧ s.Writes u v := by
  rw [BitMatrix.meets_iff tidy_writeMatrix tidy_writeMatrix]
  exact exists_congr fun v => and_congr (get_writeMatrix wellFormed) (get_writeMatrix wellFormed)

theorem mem_writersFor (wellFormed : s.WellFormed) {g t : Nat} :
    t ∈ s.writersFor s.writeMatrix s.guardReadMatrix g ↔
      ∃ v, s.Writes t v ∧ s.GuardReads g v := by
  rw [writersFor, List.mem_filter, List.mem_range,
    BitMatrix.meets_iff tidy_writeMatrix tidy_guardReadMatrix]
  constructor
  · rintro ⟨_, v, writes, reads⟩
    exact ⟨v, (get_writeMatrix wellFormed).mp writes, (get_guardReadMatrix wellFormed).mp reads⟩
  · rintro ⟨v, writes, reads⟩
    exact ⟨writes.lt, v, (get_writeMatrix wellFormed).mpr writes,
      (get_guardReadMatrix wellFormed).mpr reads⟩

theorem get_enablingMatrix (wellFormed : s.WellFormed) {g t : Nat} :
    (s.enablingMatrix s.writeMatrix s.guardReadMatrix).get g t = true ↔ s.Enables t g := by
  rw [enablingMatrix, BitMatrix.get_ofCells, mem_rowCells]
  simp only [List.getElem?_map, List.getElem?_zipIdx, Array.getElem?_toList, Option.map_map,
    Option.map_eq_some_iff, Function.comp_apply, Nat.zero_add]
  constructor
  · rintro ⟨⟨columns, ⟨guard, found, rfl⟩, member⟩, _⟩
    refine ⟨guard, found, ?_⟩
    cases declared : guard.enablers with
    | some listed => simpa [declared] using member
    | none =>
      rw [declared, Option.getD_none, mem_writersFor wellFormed] at member
      obtain ⟨v, writes, guard', found', reads⟩ := member
      rw [found, Option.some.injEq] at found'
      exact ⟨v, found' ▸ reads, writes⟩
  · rintro ⟨guard, found, enables⟩
    have inside : g < s.guards.size := (Array.getElem?_eq_some_iff.mp found).1
    cases declared : guard.enablers with
    | some listed =>
      rw [declared] at enables
      have fits := (wellFormed.guards found).enablers t (by rw [declared]; exact enables)
      exact ⟨⟨_, ⟨guard, found, rfl⟩, by rw [declared]; exact enables⟩, inside, fits⟩
    | none =>
      rw [declared] at enables
      obtain ⟨v, reads, writes⟩ := enables
      refine ⟨⟨_, ⟨guard, found, rfl⟩, ?_⟩, inside, writes.lt⟩
      rw [declared, Option.getD_none, mem_writersFor wellFormed]
      exact ⟨v, writes, guard, found, reads⟩

end Matrices

end TransitionSystem

/-! ### The analysis -/

theorem mem_insertAscending {number other : Nat} {numbers : List Nat} :
    other ∈ insertAscending number numbers ↔ other = number ∨ other ∈ numbers := by
  induction numbers with
  | nil => simp [insertAscending]
  | cons first rest ih =>
    unfold insertAscending
    split
    · simp
    · split
      · next same => simp [same]
      · rw [List.mem_cons, ih, List.mem_cons]
        exact or_left_comm

theorem mem_ascending {other : Nat} {numbers : List Nat} :
    other ∈ ascending numbers ↔ other ∈ numbers := by
  induction numbers with
  | nil => simp [ascending]
  | cons first rest ih =>
    rw [List.mem_cons, ← ih]
    exact mem_insertAscending

theorem pairwise_insertAscending {number : Nat} {numbers : List Nat}
    (ordered : numbers.Pairwise (· < ·)) :
    (insertAscending number numbers).Pairwise (· < ·) := by
  induction numbers with
  | nil => exact List.pairwise_singleton _ _
  | cons first rest ih =>
    obtain ⟨above, later⟩ := List.pairwise_cons.mp ordered
    unfold insertAscending
    split
    · next less =>
      refine List.pairwise_cons.mpr ⟨fun other member => ?_, ordered⟩
      rcases List.mem_cons.mp member with rfl | member
      · exact less
      · exact Nat.lt_trans less (above other member)
    · split
      · exact ordered
      · refine List.pairwise_cons.mpr ⟨fun other member => ?_, ih later⟩
        rcases mem_insertAscending.mp member with rfl | member
        · omega
        · exact above other member

/-- The numbers of a list in ascending order do ascend. -/
theorem pairwise_ascending (numbers : List Nat) : (ascending numbers).Pairwise (· < ·) := by
  induction numbers with
  | nil => exact List.Pairwise.nil
  | cons first rest ih => exact pairwise_insertAscending ih

namespace Analysis

variable {s : TransitionSystem}

@[simp] theorem transitionCount_ofValid : (ofValid s).transitionCount = s.transitions.size := by
  simp [transitionCount, ofValid]

/-- The guards of a transition. -/
theorem mem_guardsOf {t g : Nat} : g ∈ (ofValid s).guardsOf t ↔ s.HasGuard t g := by
  simp only [guardsOf, ofValid, Array.getD_eq_getD_getElem?, Array.getElem?_map,
    TransitionSystem.HasGuard]
  cases s.transitions[t]? <;> simp [mem_ascending]

theorem pairwise_guardsOf (t : Nat) : ((ofValid s).guardsOf t).Pairwise (· < ·) := by
  simp only [guardsOf, ofValid, Array.getD_eq_getD_getElem?, Array.getElem?_map]
  cases s.transitions[t]? with
  | none => exact List.Pairwise.nil
  | some transition => exact pairwise_ascending _

/-- The transitions that can make a guard true. -/
theorem mem_enablersOf (wellFormed : s.WellFormed) {g t : Nat} :
    t ∈ (ofValid s).enablersOf g ↔ s.Enables t g := by
  have tidy : (ofValid s).enabling.Tidy := BitMatrix.tidy_ofCells _ _ _
  rw [enablersOf, BitMatrix.mem_columns tidy]
  exact TransitionSystem.get_enablingMatrix wellFormed

/-- The transitions that can make a guard true are listed if the matrices fit in memory. -/
theorem enablingSet_eq (memory : s.fitsMemory = true) {g : Nat} (known : g < s.guards.size) :
    (ofValid s).enablingSet g = .ok ((ofValid s).enablersOf g) := by
  simp only [TransitionSystem.fitsMemory, TransitionSystem.footprintsFit, Bool.and_eq_true]
    at memory
  obtain ⟨⟨⟨_, wide⟩, square⟩, _⟩ := memory
  have rows : (ofValid s).enabling.rows = s.guards.size := BitMatrix.ofCells_rows ..
  have cols : (ofValid s).enabling.cols = s.transitions.size := BitMatrix.ofCells_cols ..
  refine BitMatrix.rowColumns_eq (rows ▸ known) ?_ ?_
  · rw [rows]
    exact BitMatrix.lt_size_of_fitsMemory square
  · rw [rows, cols]
    exact wide

/-- Dependence of two transitions. -/
theorem get_dependent_iff (wellFormed : s.WellFormed) {t u : Nat} :
    (ofValid s).dependent.get t u = true ↔ s.Dependent t u := by
  have parts : (ofValid s).dependent.get t u = true ↔
      t < s.transitions.size ∧ u < s.transitions.size ∧
        (((∃ v, s.Writes t v ∧ s.Reads u v) ∨ ∃ v, s.Writes t v ∧ s.Writes u v) ∨
          ∃ v, s.Writes u v ∧ s.Reads t v) := by
    rw [← TransitionSystem.meets_write_read wellFormed,
      ← TransitionSystem.meets_write_write wellFormed,
      ← TransitionSystem.meets_write_read wellFormed, ← Bool.or_eq_true, ← Bool.or_eq_true]
    exact BitMatrix.get_ofRelation
  rw [parts]
  constructor
  · rintro ⟨_, _, (⟨v, both⟩ | ⟨v, both⟩) | ⟨v, both⟩⟩
    · exact ⟨v, .inl both⟩
    · exact ⟨v, .inr (.inl both)⟩
    · exact ⟨v, .inr (.inr both)⟩
  · rintro ⟨v, both | both | both⟩
    · exact ⟨both.1.lt, both.2.lt, .inl (.inl ⟨v, both⟩)⟩
    · exact ⟨both.1.lt, both.2.lt, .inl (.inr ⟨v, both⟩)⟩
    · exact ⟨both.2.lt, both.1.lt, .inr ⟨v, both⟩⟩

/-- Pairs of transitions that are never enabled together. -/
theorem get_neverCoenabled_iff (wellFormed : s.WellFormed) {t u : Nat} :
    (ofValid s).neverCoenabled.get t u = true ↔ s.NeverCoenabled t u := by
  have related : ((ofValid s).guardsOf t).any (fun g => ((ofValid s).guardsOf u).any fun h =>
      s.exclusiveMatrix.get g h) = true ↔
        ∃ g h, s.HasGuard t g ∧ s.HasGuard u h ∧ s.Excludes g h := by
    simp only [List.any_eq_true, mem_guardsOf, TransitionSystem.get_exclusiveMatrix wellFormed]
    constructor
    · rintro ⟨g, has, h, hasOther, excludes⟩
      exact ⟨g, h, has, hasOther, excludes⟩
    · rintro ⟨g, h, has, hasOther, excludes⟩
      exact ⟨g, has, h, hasOther, excludes⟩
  have cell : (ofValid s).neverCoenabled.get t u = true ↔
      t < s.transitions.size ∧ u < s.transitions.size ∧ (t != u && ((ofValid s).guardsOf t).any
        fun g => ((ofValid s).guardsOf u).any fun h => s.exclusiveMatrix.get g h) = true :=
    BitMatrix.get_ofRelation
  rw [cell, Bool.and_eq_true, bne_iff_ne, related]
  constructor
  · rintro ⟨_, _, different, excluded⟩
    exact ⟨different, excluded⟩
  · rintro ⟨different, g, h, has, hasOther, excludes⟩
    exact ⟨has.lt, hasOther.lt, different, g, h, has, hasOther, excludes⟩

/-- Conflicts of transitions. -/
theorem get_conflict_iff (wellFormed : s.WellFormed) {t u : Nat} :
    (ofValid s).conflict.get t u = true ↔ s.Conflicts t u := by
  have cell : (ofValid s).conflict.get t u = true ↔
      t < s.transitions.size ∧ u < s.transitions.size ∧
        (t != u && s.writeMatrix.meets t s.writeMatrix u) = true :=
    BitMatrix.get_ofRelation
  rw [cell, Bool.and_eq_true, bne_iff_ne, TransitionSystem.meets_write_write wellFormed]
  constructor
  · rintro ⟨_, _, conflicts⟩
    exact conflicts
  · rintro ⟨different, v, writes, writes'⟩
    exact ⟨writes.lt, writes'.lt, different, v, writes, writes'⟩

/-- The process tags of a transition. -/
theorem mem_processesOf {t process : Nat} :
    process ∈ (ofValid s).processesOf t ↔ s.HasTag t process := by
  simp only [processesOf, ofValid, Array.getD_eq_getD_getElem?, Array.getElem?_map,
    TransitionSystem.HasTag]
  cases s.transitions[t]? <;> simp [mem_ascending]

/-- A transition of a well-formed description has a process. -/
theorem processesOf_ne_nil (wellFormed : s.WellFormed) {t : Nat} (inside : t < s.transitions.size) :
    (ofValid s).processesOf t ≠ [] := by
  have found : s.transitions[t]? = some s.transitions[t] := Array.getElem?_eq_getElem inside
  obtain ⟨process, tag⟩ := List.exists_mem_of_ne_nil _ (wellFormed.transitions found).tagged
  exact List.ne_nil_of_mem (mem_processesOf.mpr ⟨_, found, tag⟩)

/-- Transitions of a common process. -/
theorem get_sameProcess_iff {t u : Nat} :
    (ofValid s).sameProcess.get t u = true ↔
      t ≠ u ∧ ∃ process, s.HasTag t process ∧ s.HasTag u process := by
  have cell : (ofValid s).sameProcess.get t u = true ↔
      t < s.transitions.size ∧ u < s.transitions.size ∧ (t != u && ((ofValid s).processesOf t).any
        fun process => ((ofValid s).processesOf u).contains process) = true :=
    BitMatrix.get_ofRelation
  rw [cell, Bool.and_eq_true, bne_iff_ne, List.any_eq_true]
  simp only [List.contains_iff_mem, mem_processesOf]
  constructor
  · rintro ⟨_, _, common⟩
    exact common
  · rintro ⟨different, process, tag, tag'⟩
    exact ⟨tag.lt, tag'.lt, different, process, tag, tag'⟩

/-- **What a reduction walks along** are the transitions that interfere. -/
theorem mem_interference_iff (wellFormed : s.WellFormed) {processLocal : Bool} {t u : Nat} :
    u ∈ ((ofValid s).interference processLocal).columns t ↔ s.Interferes processLocal t u := by
  have tidy : ((ofValid s).interference processLocal).Tidy := BitMatrix.tidy_ofRelation _ _ _
  rw [BitMatrix.mem_columns tidy, interference, BitMatrix.get_ofRelation, transitionCount_ofValid]
  simp only [Bool.and_eq_true, Bool.or_eq_true, bne_iff_ne, Bool.not_eq_true', ← Bool.not_eq_true,
    get_neverCoenabled_iff wellFormed, get_dependent_iff wellFormed, get_sameProcess_iff]
  constructor
  · rintro ⟨_, _, ⟨different, coenabled⟩, dependent | ⟨asked, _, common⟩⟩
    · exact ⟨different, coenabled, .inl dependent⟩
    · exact ⟨different, coenabled, .inr ⟨asked, common⟩⟩
  · rintro ⟨different, coenabled, dependent | ⟨asked, process, tag, tag'⟩⟩
    · exact ⟨dependent.lt.1, dependent.lt.2, ⟨different, coenabled⟩, .inl dependent⟩
    · exact ⟨tag.lt, tag'.lt, ⟨different, coenabled⟩,
        .inr ⟨asked, different, process, tag, tag'⟩⟩

/-- **Dependent transitions that may be enabled together interfere.** -/
theorem mem_interference (wellFormed : s.WellFormed) {processLocal : Bool} {t u : Nat}
    (different : t ≠ u) (dependent : s.Dependent t u) (coenabled : ¬ s.NeverCoenabled t u) :
    u ∈ ((ofValid s).interference processLocal).columns t :=
  (mem_interference_iff wellFormed).mpr ⟨different, coenabled, .inl dependent⟩

/-- **Transitions of a common process that may be enabled together interfere**, if that is asked
for. -/
theorem mem_interference_of_process (wellFormed : s.WellFormed) {t u process : Nat}
    (different : t ≠ u) (tag : process ∈ (ofValid s).processesOf t)
    (tag' : process ∈ (ofValid s).processesOf u) (coenabled : ¬ s.NeverCoenabled t u) :
    u ∈ ((ofValid s).interference true).columns t :=
  (mem_interference_iff wellFormed).mpr ⟨different, coenabled,
    .inr ⟨rfl, process, mem_processesOf.mp tag, mem_processesOf.mp tag'⟩⟩

end Analysis

end StateSpace

/-
**What an analysis answers.**

* `Tells` — a query lists what is related to a number: inside its bound it is answered, and every
  answer is the ascending list.
* `Analysis.interferenceByRows` — what a reduction walks along, made row by row: the rows of
  dependent transitions and of those that share a process are poured together, and from the pairs
  found those are dropped that are never enabled together. `Analysis.Reflects.interferenceByRows_eq`
  says that it is `Analysis.interference`.
* `Analysis.relations_exact` — the queries of an analysis are the relations that the declared
  footprints define, whatever the numbers of variables, guards and transitions.
-/

import StateSpace.Proofs.Analysis.Assembly

namespace StateSpace

/-- **A query tells a relation**: inside its bound it is answered, and every answer is the ascending
list of what is related to the number asked about. -/
def Tells (query : Nat → Except Abort (List Nat)) (bound : Nat) (related : Nat → Nat → Prop) :
    Prop :=
  (∀ row, row < bound → ∃ numbers, query row = .ok numbers) ∧
    ∀ row numbers, query row = .ok numbers →
      numbers.Pairwise (· < ·) ∧ ∀ number, number ∈ numbers ↔ related row number

theorem BitMatrix.Holds.tells_rowColumns {m : BitMatrix} {rows cols : Nat}
    {related : Nat → Nat → Prop} (holds : m.Holds rows cols related)
    (addressable : Addressable rows cols) : Tells m.rowColumns rows related := by
  constructor
  · intro row inside
    exact ⟨m.columns row, holds.rowColumns_eq addressable inside⟩
  · intro row numbers answered
    have listed : numbers = m.columns row := by
      unfold rowColumns at answered
      cases required : m.requireRow row with
      | error cause =>
        rw [required] at answered
        cases answered
      | ok _ =>
        rw [required] at answered
        exact (Except.ok.inj answered).symm
    rw [listed]
    exact ⟨m.pairwise_columns row, fun number => holds.mem_columns⟩

/-- A matrix of a symmetric relation is symmetric, cell by cell. -/
theorem BitMatrix.Holds.symmetric {m : BitMatrix} {rows : Nat} {related : Nat → Nat → Prop}
    (holds : m.Holds rows rows related) (symm : ∀ {row col}, related row col → related col row) :
    m.isSymmetric = true ∧ ∀ row col, m.get row col = m.get col row := by
  refine ⟨holds.isSymmetric_iff.mpr ⟨rfl, fun _ _ => symm⟩, fun row col => ?_⟩
  rw [Bool.eq_iff_iff, holds.get_iff, holds.get_iff]
  exact ⟨symm, symm⟩

namespace Analysis

/-! ### Interference row by row -/

/-- Pours the rows of what interferes with a transition together, but for the pairs that are never
enabled together. -/
def pourRows (a : Analysis) (processLocal : Bool) (graph : BitMatrix) (t : Nat) :
    Except Failure BitMatrix := do
  let graph ← orAbort (graph.uniteRow t a.dependent t)
  if processLocal then orAbort (graph.uniteRow t a.sameProcess t) else return graph

/-- **What a reduction walks along, made row by row.** -/
def interferenceByRows (a : Analysis) (processLocal : Bool) : Except Failure BitMatrix := do
  let count := a.transitionCount
  let graph ← orAbort (BitMatrix.create count count)
  let graph ← (List.range count).foldlM (a.pourRows processLocal) graph
  let pruned ← orAbort (BitMatrix.create count count)
  graph.cells.foldlM (fun pruned pair => pruned.markIf pair.1 pair.2
    (.ok (pair.1 != pair.2 && !a.neverCoenabled.get pair.1 pair.2))) pruned

variable {s : TransitionSystem} {a : Analysis} {processLocal : Bool}

theorem Reflects.checks_pourRows {graph : BitMatrix} {done : List Nat} {t : Nat}
    (reflects : a.Reflects s) (addressable : s.Addressable) (inside : t < s.transitions.size)
    (earlier : graph.Holds s.transitions.size s.transitions.size fun t u => t ∈ done ∧
      (s.Dependent t u ∨ processLocal = true ∧ s.SameProcess t u)) :
    Checks []
      (fun graph' : BitMatrix => graph'.Holds s.transitions.size s.transitions.size
        fun t' u => t' ∈ done ++ [t] ∧
          (s.Dependent t' u ∨ processLocal = true ∧ s.SameProcess t' u))
      (a.pourRows processLocal graph t) := by
  have square := addressable.transitions
  refine (earlier.checks_uniteRow reflects.dependent square square inside inside).ok_bind
    fun graph poured => ?_
  cases processLocal with
  | true =>
    refine (poured.checks_uniteRow reflects.sameProcess square square inside inside).imp
      fun graph' filled => filled.congr fun t' u => ?_
    simp only [List.mem_append, List.mem_singleton]
    grind
  | false =>
    refine .pure (poured.congr fun t' u => ?_)
    simp only [List.mem_append, List.mem_singleton]
    grind

/-- What the rows hold before the pairs that are never enabled together are dropped. -/
theorem Reflects.checks_rows {graph : BitMatrix} (reflects : a.Reflects s)
    (addressable : s.Addressable)
    (none : graph.Holds s.transitions.size s.transitions.size fun _ _ => False) :
    Checks []
      (fun graph' : BitMatrix => graph'.Holds s.transitions.size s.transitions.size
        fun t u => s.Dependent t u ∨ processLocal = true ∧ s.SameProcess t u)
      ((List.range s.transitions.size).foldlM (a.pourRows processLocal) graph) := by
  have pass := Checks.foldlM_ok (fun (done : List Nat) (graph' : BitMatrix) =>
    graph'.Holds s.transitions.size s.transitions.size fun t u => t ∈ done ∧
      (s.Dependent t u ∨ processLocal = true ∧ s.SameProcess t u)) (none.congr (by simp))
    fun done t graph' member earlier =>
      reflects.checks_pourRows addressable (List.mem_range.mp member) earlier
  refine pass.imp fun graph' filled => filled.congr fun t u => and_iff_right_of_imp ?_
  intro related
  apply List.mem_range.mpr
  rcases related with dependent | ⟨_, same⟩
  · exact dependent.lt.1
  · exact same.lt.1

/-- **Row by row, the same pairs are found.** -/
theorem Reflects.interferenceByRows_eq (reflects : a.Reflects s) (memory : s.fitsMemory = true)
    (processLocal : Bool) :
    a.interferenceByRows processLocal = .ok (a.interference processLocal) := by
  have addressable := TransitionSystem.addressable_of_fitsMemory memory
  have square := addressable.transitions.2
  have made : Checks [] (fun graph : BitMatrix =>
      graph.Holds s.transitions.size s.transitions.size (s.Interferes processLocal))
      (a.interferenceByRows processLocal) := by
    unfold interferenceByRows
    rw [reflects.transitionCount_eq]
    refine (BitMatrix.checks_create square).ok_bind fun graph none => ?_
    refine (reflects.checks_rows addressable none).ok_bind fun graph poured => ?_
    refine (BitMatrix.checks_create square).ok_bind fun pruned none' => ?_
    refine (Checks.foldlM_ok (fun (done : List (Nat × Nat)) (pruned' : BitMatrix) =>
      pruned'.Holds s.transitions.size s.transitions.size fun t u => (t, u) ∈ done ∧
        (t ≠ u ∧ ¬ s.NeverCoenabled t u)) (none'.congr (by simp)) ?_).imp
      fun pruned filled => filled.congr fun t u => ?_
    · intro done pair pruned' member earlier
      have inside := poured.inside (poured.mem_cells.mp member)
      refine earlier.checks_markPair inside (.pure ?_)
      rw [Bool.and_eq_true, bne_iff_ne, Bool.not_eq_true', ← Bool.not_eq_true,
        reflects.neverCoenabled.get_iff]
    · rw [poured.mem_cells, TransitionSystem.interferes_iff, and_comm, and_assoc]
  obtain ⟨graph, succeeds, holds⟩ := made
  rw [succeeds, holds.unique (reflects.holds_interference processLocal)]

/-! ### All queries -/

/-- **The relations of an analysis are those that the declared footprints define.** Made in passes
it is the same analysis; the lists are ascending, the cells are told for all numbers, and six of the
matrices are symmetric. -/
theorem relations_exact (made : ofSystem s = .ok a) :
    assemble s = .ok a ∧
      (Tells a.readSet s.transitions.size s.Reads ∧
        Tells a.writeSet s.transitions.size s.Writes ∧
        Tells a.enablingSet s.guards.size fun g t => s.Enables t g) ∧
      (∀ t u, (a.dependent.get t u = true ↔ s.Dependent t u) ∧
        (a.conflict.get t u = true ↔ s.Conflicts t u) ∧
        (a.sameProcess.get t u = true ↔ s.SameProcess t u) ∧
        (a.neverCoenabled.get t u = true ↔ s.NeverCoenabled t u)) ∧
      (∀ g h, a.coenabled.get g h = true ↔
        g < s.guards.size ∧ h < s.guards.size ∧ ¬ s.Excludes g h) ∧
      (∀ processLocal, a.interferenceByRows processLocal = .ok (a.interference processLocal) ∧
        ∀ t u, (a.interference processLocal).get t u = true ↔
          t ≠ u ∧ a.neverCoenabled.get t u = false ∧
            (a.dependent.get t u = true ∨
              processLocal = true ∧ a.sameProcess.get t u = true)) ∧
      ∀ m ∈ [a.dependent, a.conflict, a.sameProcess, a.neverCoenabled, a.interference false,
          a.interference true],
        m.isSymmetric = true ∧ ∀ t u, m.get t u = m.get u t := by
  obtain ⟨memory, wellFormed, same⟩ := ofSystem_eq_ok_iff.mp made
  have reflects : a.Reflects s := same ▸ reflects_ofValid wellFormed
  have addressable := TransitionSystem.addressable_of_fitsMemory memory
  have interferes := reflects.holds_interference
  refine ⟨(assemble_eq memory).trans made, ⟨?_, ?_, ?_⟩, ?_, ?_, ?_, ?_⟩
  · exact reflects.read.tells_rowColumns addressable.footprints
  · exact reflects.write.tells_rowColumns addressable.footprints
  · exact reflects.enabling.tells_rowColumns addressable.enabling
  · intro t u
    exact ⟨reflects.dependent.get_iff, reflects.conflict.get_iff, reflects.sameProcess.get_iff,
      reflects.neverCoenabled.get_iff⟩
  · intro g h
    rw [reflects.coenabled.get_iff, TransitionSystem.Coenabled, and_assoc]
  · intro processLocal
    refine ⟨reflects.interferenceByRows_eq memory processLocal, fun t u => ?_⟩
    rw [(interferes processLocal).get_iff, TransitionSystem.interferes_iff, ← Bool.not_eq_true,
      reflects.neverCoenabled.get_iff, reflects.dependent.get_iff, reflects.sameProcess.get_iff]
  · simp only [List.forall_mem_cons, List.not_mem_nil, false_implies, implies_true, and_true]
    exact ⟨reflects.dependent.symmetric .symm, reflects.conflict.symmetric .symm,
      reflects.sameProcess.symmetric .symm, reflects.neverCoenabled.symmetric .symm,
      (interferes false).symmetric .symm, (interferes true).symmetric .symm⟩

/-- Two transitions over variables of three words. Each reads in its guard what the other one
writes, and the guards exclude one another. -/
def farApart : TransitionSystem where
  variableCount := 130
  processCount := 1
  transitions := #[⟨"low", [0], [0], [129], [1]⟩, ⟨"high", [0], [63, 0], [64], [0]⟩]
  guards := #[⟨[129], none⟩, ⟨[64], some [1]⟩]
  exclusiveGuards := [(1, 0)]

theorem ofSystem_farApart : ofSystem farApart = .ok (ofValid farApart) :=
  ofSystem_eq_ok_iff.mpr
    ⟨by decide, TransitionSystem.violations_eq_nil_iff.mp (by decide), rfl⟩

theorem farApart_reads : farApart.Reads 1 129 :=
  .inr ⟨0, ⟨_, rfl, by decide⟩, ⟨_, rfl, by decide⟩⟩

theorem farApart_not_reads : ¬ farApart.Reads 1 64 := by
  simp [TransitionSystem.Reads, TransitionSystem.HasGuard, TransitionSystem.GuardReads, farApart]

theorem farApart_neverCoenabled : farApart.NeverCoenabled 0 1 :=
  ⟨by decide, 1, 0, ⟨_, rfl, by decide⟩, ⟨_, rfl, by decide⟩, .inl (by decide)⟩

theorem relations_exact_farApart :
    ∃ a, ofSystem farApart = .ok a ∧
      (∃ numbers, a.readSet 1 = .ok numbers ∧ 129 ∈ numbers ∧ 64 ∉ numbers) ∧
      a.dependent.get 0 1 = true ∧ a.neverCoenabled.get 0 1 = true ∧
      (a.interference true).get 0 1 = false := by
  obtain ⟨_, ⟨reads, _, _⟩, pairs, _, interference, _⟩ := relations_exact ofSystem_farApart
  obtain ⟨dependent, _, _, never⟩ := pairs 0 1
  obtain ⟨numbers, answered⟩ := reads.1 1 (by decide)
  have listed := (reads.2 1 numbers answered).2
  have apart := never.mpr farApart_neverCoenabled
  refine ⟨_, ofSystem_farApart, ⟨numbers, answered, ?_, ?_⟩, ?_, apart, ?_⟩
  · exact (listed 129).mpr farApart_reads
  · exact fun member => farApart_not_reads ((listed 64).mp member)
  · exact dependent.mpr ⟨129, .inl ⟨⟨_, rfl, by decide⟩, farApart_reads⟩⟩
  · rw [← Bool.not_eq_true, ((interference true).2 0 1), apart]
    simp

end Analysis

end StateSpace

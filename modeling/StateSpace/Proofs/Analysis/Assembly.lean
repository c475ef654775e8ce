/-
**An analysis made in passes.**

* `Analysis.assemble` — the passes one after the other: over guards, over transitions, over guards
  again, over exclusive pairs, over pairs of guards and over pairs of transitions.
* `Analysis.checks_assemble` — they complain about the first violation, and without one they give an
  analysis that reflects the description.
* `Analysis.assemble_eq` — so they give what `Analysis.ofSystem` gives.
-/

import StateSpace.Proofs.Analysis.Passes

namespace StateSpace

/-- All pairs of numbers below a bound, row by row. -/
def allPairs (bound : Nat) : List (Nat × Nat) :=
  (List.range bound).flatMap fun row => (List.range bound).map fun col => (row, col)

theorem mem_allPairs {bound row col : Nat} :
    (row, col) ∈ allPairs bound ↔ row < bound ∧ col < bound := by
  simp [allPairs]

/-- The relations between pairs of transitions, as far as they are known. -/
structure PairRelations where
  dependent : BitMatrix
  conflict : BitMatrix
  sameProcess : BitMatrix
  neverCoenabled : BitMatrix

/-- Two guards may hold together unless they exclude one another. -/
def coenabledStep (exclusive coenabled : BitMatrix) (pair : Nat × Nat) : Except Failure BitMatrix :=
  coenabled.markIf pair.1 pair.2 (.ok (!exclusive.get pair.1 pair.2))

/-- Looks at a pair of transitions; a transition may depend on itself. -/
def Footprints.relateStep (known : Footprints) (exclusive : BitMatrix) (found : PairRelations)
    (pair : Nat × Nat) : Except Failure PairRelations := do
  let dependent ← found.dependent.markIf pair.1 pair.2
    (orAbort (known.write.rowsMeet pair.1 known.read pair.2)
      <||> orAbort (known.write.rowsMeet pair.1 known.write pair.2)
      <||> orAbort (known.write.rowsMeet pair.2 known.read pair.1))
  if pair.1 = pair.2 then return { found with dependent := dependent }
  let conflict ← found.conflict.markIf pair.1 pair.2
    (orAbort (known.write.rowsMeet pair.1 known.write pair.2))
  let sameProcess ← found.sameProcess.markIf pair.1 pair.2 do
    let tags ← orAbort (Analysis.elementAt known.processes pair.1)
    let others ← orAbort (Analysis.elementAt known.processes pair.2)
    return tags.any others.contains
  let neverCoenabled ← found.neverCoenabled.markIf pair.1 pair.2 do
    let guards ← orAbort (Analysis.elementAt known.guards pair.1)
    let others ← orAbort (Analysis.elementAt known.guards pair.2)
    return guards.any fun g => others.any fun h => exclusive.get g h
  return ⟨dependent, conflict, sameProcess, neverCoenabled⟩

/-- **The analysis of a description, made in passes.** -/
def Analysis.assemble (s : TransitionSystem) : Except Failure Analysis := do
  let count := s.transitions.size
  refuseIf (decide (0 < count ∧ s.processCount = 0))
    (.malformedSystem s!"{count} transitions but no process")
  let read ← orAbort (BitMatrix.create count s.variableCount)
  let write ← orAbort (BitMatrix.create count s.variableCount)
  let guardRead ← orAbort (BitMatrix.create s.guards.size s.variableCount)
  let enabling ← orAbort (BitMatrix.create s.guards.size count)
  let coenabled ← orAbort (BitMatrix.create s.guards.size s.guards.size)
  -- guards come first, since the rows of transitions take in what their guards read
  let guarded ← s.guards.toList.zipIdx.foldlM s.guardStep (guardRead, enabling)
  let known ← s.transitions.toList.zipIdx.foldlM (s.transitionStep guarded.1)
    ⟨#[], #[], read, write⟩
  -- what is not declared of a guard follows from what transitions write
  let enabling ← s.guards.toList.zipIdx.foldlM (s.enablingStep known.write guarded.1) guarded.2
  let exclusive ← orAbort (BitMatrix.create s.guards.size s.guards.size)
  let exclusive ← s.exclusiveGuards.foldlM s.pairStep exclusive
  let coenabled ← (allPairs s.guards.size).foldlM (coenabledStep exclusive) coenabled
  let dependent ← orAbort (BitMatrix.create count count)
  let conflict ← orAbort (BitMatrix.create count count)
  let sameProcess ← orAbort (BitMatrix.create count count)
  let neverCoenabled ← orAbort (BitMatrix.create count count)
  let found ← (allPairs count).foldlM (known.relateStep exclusive)
    ⟨dependent, conflict, sameProcess, neverCoenabled⟩
  return { variableCount := s.variableCount
           labels := s.transitions.mapIdx fun number transition =>
             TransitionSystem.labelOf transition number
           processes := known.processes
           guards := known.guards
           read := known.read
           write := known.write
           guardRead := guarded.1
           enabling := enabling
           coenabled := coenabled
           dependent := found.dependent
           conflict := found.conflict
           sameProcess := found.sameProcess
           neverCoenabled := found.neverCoenabled }

/-! ### All pairs -/

namespace BitMatrix

variable {m : BitMatrix} {rows cols : Nat} {related : Nat → Nat → Prop}
  {done : List (Nat × Nat)} {pair : Nat × Nat}

/-- One more pair, which is tested. -/
theorem Holds.checks_markPair {test : Except Failure Bool}
    (holds : m.Holds rows cols fun row col => (row, col) ∈ done ∧ related row col)
    (inside : pair.1 < rows ∧ pair.2 < cols)
    (tests : Checks [] (fun found => found = true ↔ related pair.1 pair.2) test) :
    Checks []
      (fun m' : BitMatrix => m'.Holds rows cols
        fun row col => (row, col) ∈ done ++ [pair] ∧ related row col)
      (m.markIf pair.1 pair.2 test) := by
  refine (holds.checks_markIf inside.1 inside.2 tests).imp
    fun m' grown => grown.congr fun row col => ?_
  rw [List.mem_append, List.mem_singleton, or_and_right, Prod.ext_iff]
  refine or_congr_right (and_congr_right fun same => ?_)
  rw [same.1, same.2]

/-- One more pair, which is known to be unrelated. -/
theorem Holds.skip (holds : m.Holds rows cols fun row col => (row, col) ∈ done ∧ related row col)
    (unrelated : ¬ related pair.1 pair.2) :
    m.Holds rows cols fun row col => (row, col) ∈ done ++ [pair] ∧ related row col := by
  refine holds.congr fun row col => ?_
  rw [List.mem_append, List.mem_singleton, or_and_right]
  refine (or_iff_left ?_).symm
  rintro ⟨rfl, pair⟩
  exact unrelated pair

/-- All pairs were gone through. -/
theorem Holds.of_allPairs (holds : m.Holds rows rows
      fun row col => (row, col) ∈ allPairs rows ∧ related row col)
    (inside : ∀ row col, related row col → row < rows ∧ col < rows) :
    m.Holds rows rows related := by
  refine holds.congr fun row col => ?_
  rw [mem_allPairs]
  exact and_iff_right_of_imp (inside row col)

end BitMatrix

variable {s : TransitionSystem}

theorem checks_coenabledStep {exclusive coenabled : BitMatrix} {done : List (Nat × Nat)}
    {pair : Nat × Nat} (inside : pair.1 < s.guards.size ∧ pair.2 < s.guards.size)
    (excludes : exclusive.Holds s.guards.size s.guards.size s.Excludes)
    (earlier : coenabled.Holds s.guards.size s.guards.size
      fun g h => (g, h) ∈ done ∧ s.Coenabled g h) :
    Checks []
      (fun coenabled' : BitMatrix => coenabled'.Holds s.guards.size s.guards.size
        fun g h => (g, h) ∈ done ++ [pair] ∧ s.Coenabled g h)
      (coenabledStep exclusive coenabled pair) := by
  refine earlier.checks_markPair inside (.pure ?_)
  rw [Bool.not_eq_true', ← Bool.not_eq_true, excludes.get_iff, TransitionSystem.Coenabled,
    and_iff_right inside]

/-- The pass over all pairs of guards. -/
theorem checks_coenabled {exclusive coenabled : BitMatrix}
    (excludes : exclusive.Holds s.guards.size s.guards.size s.Excludes)
    (noPair : coenabled.Holds s.guards.size s.guards.size fun _ _ => False) :
    Checks []
      (fun coenabled' : BitMatrix => coenabled'.Holds s.guards.size s.guards.size s.Coenabled)
      ((allPairs s.guards.size).foldlM (coenabledStep exclusive) coenabled) := by
  have pass := Checks.foldlM_ok (fun (done : List (Nat × Nat)) (coenabled' : BitMatrix) =>
    coenabled'.Holds s.guards.size s.guards.size fun g h => (g, h) ∈ done ∧ s.Coenabled g h)
    (noPair.congr (by simp))
    fun done pair coenabled' member earlier =>
      checks_coenabledStep (mem_allPairs.mp member) excludes earlier
  exact pass.imp fun coenabled' filled => filled.of_allPairs fun _ _ together => together.1

namespace Footprints

variable {known : Footprints}

/-- The numbers that are listed for a transition. -/
theorem checks_elementAt {lists : Array (List Nat)} {f : Transition → List Nat} {t : Nat}
    (same : lists = s.transitions.map fun transition => ascending (f transition))
    (inside : t < s.transitions.size) :
    Checks []
      (fun numbers => ∀ number, number ∈ numbers ↔
        ∃ transition, s.transitions[t]? = some transition ∧ number ∈ f transition)
      (orAbort (Analysis.elementAt lists t)) := by
  have found : s.transitions[t]? = some s.transitions[t] := Array.getElem?_eq_getElem inside
  have listed : Analysis.elementAt lists t = .ok (ascending (f s.transitions[t])) := by
    rw [Analysis.elementAt, same, Array.getElem?_map, found]
    rfl
  refine checks_orAbort listed fun number => ?_
  rw [mem_ascending, found]
  simp

/-- What the last pass knows of the pairs of transitions that it has gone through. -/
structure PairsKnown (s : TransitionSystem) (done : List (Nat × Nat)) (found : PairRelations) :
    Prop where
  dependent : found.dependent.Holds s.transitions.size s.transitions.size
    fun t u => (t, u) ∈ done ∧ s.Dependent t u
  conflict : found.conflict.Holds s.transitions.size s.transitions.size
    fun t u => (t, u) ∈ done ∧ s.Conflicts t u
  sameProcess : found.sameProcess.Holds s.transitions.size s.transitions.size
    fun t u => (t, u) ∈ done ∧ s.SameProcess t u
  neverCoenabled : found.neverCoenabled.Holds s.transitions.size s.transitions.size
    fun t u => (t, u) ∈ done ∧ s.NeverCoenabled t u

section Tests

variable {t u : Nat}

theorem Reflects.checks_dependent (reflects : known.Reflects s) (addressable : s.Addressable)
    (inside : t < s.transitions.size ∧ u < s.transitions.size) :
    Checks [] (fun found => found = true ↔ s.Dependent t u)
      (orAbort (known.write.rowsMeet t known.read u)
        <||> orAbort (known.write.rowsMeet t known.write u)
        <||> orAbort (known.write.rowsMeet u known.read t)) := by
  have fits := addressable.footprints
  have first := reflects.write.checks_rowsMeet reflects.read fits fits inside.1 inside.2
  have second := reflects.write.checks_rowsMeet reflects.write fits fits inside.1 inside.2
  have third := reflects.write.checks_rowsMeet reflects.read fits fits inside.2 inside.1
  refine (first.or (second.or third)).imp fun found told => told.trans ?_
  rw [TransitionSystem.Dependent, exists_or, exists_or]

theorem Reflects.checks_conflict (reflects : known.Reflects s) (addressable : s.Addressable)
    (inside : t < s.transitions.size ∧ u < s.transitions.size) (different : t ≠ u) :
    Checks [] (fun found => found = true ↔ s.Conflicts t u)
      (orAbort (known.write.rowsMeet t known.write u)) := by
  have fits := addressable.footprints
  have meets := reflects.write.checks_rowsMeet reflects.write fits fits inside.1 inside.2
  exact meets.imp fun found told => told.trans (and_iff_right different).symm

theorem Reflects.checks_sameProcess (reflects : known.Reflects s)
    (inside : t < s.transitions.size ∧ u < s.transitions.size) (different : t ≠ u) :
    Checks [] (fun found => found = true ↔ s.SameProcess t u) (do
      let tags ← orAbort (Analysis.elementAt known.processes t)
      let others ← orAbort (Analysis.elementAt known.processes u)
      return tags.any others.contains) := by
  refine (checks_elementAt reflects.processes inside.1).ok_bind fun tags mem_tags => ?_
  refine (checks_elementAt reflects.processes inside.2).ok_bind fun others mem_others => ?_
  refine .pure ?_
  rw [List.any_eq_true, TransitionSystem.SameProcess, and_iff_right different]
  refine exists_congr fun process => and_congr (mem_tags process) ?_
  rw [List.contains_iff_mem]
  exact mem_others process

theorem Reflects.checks_neverCoenabled {exclusive : BitMatrix} (reflects : known.Reflects s)
    (excludes : exclusive.Holds s.guards.size s.guards.size s.Excludes)
    (inside : t < s.transitions.size ∧ u < s.transitions.size) (different : t ≠ u) :
    Checks [] (fun found => found = true ↔ s.NeverCoenabled t u) (do
      let guards ← orAbort (Analysis.elementAt known.guards t)
      let others ← orAbort (Analysis.elementAt known.guards u)
      return guards.any fun g => others.any fun h => exclusive.get g h) := by
  refine (checks_elementAt reflects.guards inside.1).ok_bind fun guards mem_guards => ?_
  refine (checks_elementAt reflects.guards inside.2).ok_bind fun others mem_others => ?_
  refine .pure ?_
  simp only [List.any_eq_true, excludes.get_iff, mem_guards, mem_others]
  rw [TransitionSystem.NeverCoenabled, and_iff_right different]
  refine exists_congr fun g => ?_
  rw [← exists_and_left]
  rfl

end Tests

theorem Reflects.checks_relateStep {exclusive : BitMatrix} {done : List (Nat × Nat)}
    {pair : Nat × Nat} {found : PairRelations} (reflects : known.Reflects s)
    (addressable : s.Addressable)
    (inside : pair.1 < s.transitions.size ∧ pair.2 < s.transitions.size)
    (excludes : exclusive.Holds s.guards.size s.guards.size s.Excludes)
    (earlier : PairsKnown s done found) :
    Checks [] (PairsKnown s (done ++ [pair])) (known.relateStep exclusive found pair) := by
  refine (earlier.dependent.checks_markPair inside
    (reflects.checks_dependent addressable inside)).ok_bind fun dependent filled => ?_
  by_cases same : pair.1 = pair.2
  · rw [if_pos same]
    exact .pure ⟨filled, earlier.conflict.skip fun related => related.1 same,
      earlier.sameProcess.skip fun related => related.1 same,
      earlier.neverCoenabled.skip fun related => related.1 same⟩
  · rw [if_neg same]
    refine (earlier.conflict.checks_markPair inside
      (reflects.checks_conflict addressable inside same)).ok_bind fun conflict filled₁ => ?_
    refine (earlier.sameProcess.checks_markPair inside
      (reflects.checks_sameProcess inside same)).ok_bind fun sameProcess filled₂ => ?_
    refine (earlier.neverCoenabled.checks_markPair inside
      (reflects.checks_neverCoenabled excludes inside same)).ok_bind
        fun neverCoenabled filled₃ => ?_
    exact .pure ⟨filled, filled₁, filled₂, filled₃⟩

/-- The pass over all pairs of transitions. -/
theorem Reflects.checks_relate {exclusive : BitMatrix} {found : PairRelations}
    (reflects : known.Reflects s) (addressable : s.Addressable)
    (excludes : exclusive.Holds s.guards.size s.guards.size s.Excludes)
    (begins : PairsKnown s [] found) :
    Checks [] (PairsKnown s (allPairs s.transitions.size))
      ((allPairs s.transitions.size).foldlM (known.relateStep exclusive) found) :=
  Checks.foldlM_ok (PairsKnown s) begins fun _ _ _ member earlier =>
    reflects.checks_relateStep addressable (mem_allPairs.mp member) excludes earlier

end Footprints

/-! ### The whole construction -/

namespace Analysis

/-- **The passes complain about the first violation**, and without one they give an analysis that
reflects the description. -/
theorem checks_assemble (memory : s.fitsMemory = true) :
    Checks s.violations (fun a : Analysis => a.Reflects s) (assemble s) := by
  have addressable := TransitionSystem.addressable_of_fitsMemory memory
  have processes : s.processViolations
      = if decide (0 < s.transitions.size ∧ s.processCount = 0) = true then
          let count := s.transitions.size
          [.malformedSystem s!"{count} transitions but no process"]
        else [] := by
    simp only [TransitionSystem.processViolations, decide_eq_true_eq]
  rw [TransitionSystem.violations, List.append_assoc, List.append_assoc, processes]
  refine checks_refuseIf.bind fun _ _ => ?_
  refine (BitMatrix.checks_create addressable.footprints.2).ok_bind fun read noReads => ?_
  refine (BitMatrix.checks_create addressable.footprints.2).ok_bind fun write noWrites => ?_
  refine (BitMatrix.checks_create addressable.guardReads.2).ok_bind fun guardRead noRead => ?_
  refine (BitMatrix.checks_create addressable.enabling.2).ok_bind fun enabling noEnabler => ?_
  refine (BitMatrix.checks_create addressable.guards.2).ok_bind fun coenabled nonePair => ?_
  refine (TransitionSystem.checks_guards noRead noEnabler).bind fun guarded guardsKnown => ?_
  have guardReads := guardsKnown.holds_guardReads
  refine (TransitionSystem.checks_transitions addressable guardReads noReads noWrites).bind
    fun known footprints => ?_
  refine (TransitionSystem.checks_enabling addressable footprints.write guardsKnown).ok_bind
    fun enabling enables => ?_
  refine (BitMatrix.checks_create addressable.guards.2).ok_bind fun exclusive noExclusive => ?_
  refine (TransitionSystem.checks_pairs noExclusive).bind_ok fun exclusive excludes => ?_
  refine (checks_coenabled excludes nonePair).ok_bind fun coenabled together => ?_
  have square := addressable.transitions.2
  refine (BitMatrix.checks_create square).ok_bind fun dependent noDependent => ?_
  refine (BitMatrix.checks_create square).ok_bind fun conflict noConflict => ?_
  refine (BitMatrix.checks_create square).ok_bind fun sameProcess noProcess => ?_
  refine (BitMatrix.checks_create square).ok_bind fun neverCoenabled noNever => ?_
  have begins : Footprints.PairsKnown s [] ⟨dependent, conflict, sameProcess, neverCoenabled⟩ :=
    ⟨noDependent.congr (by simp), noConflict.congr (by simp), noProcess.congr (by simp),
      noNever.congr (by simp)⟩
  refine (footprints.checks_relate addressable excludes begins).ok_bind fun found related => ?_
  exact .pure ⟨rfl, rfl, footprints.processes, footprints.guards, footprints.read,
    footprints.write, guardReads, enables, together,
    related.dependent.of_allPairs fun _ _ dependent => dependent.lt,
    related.conflict.of_allPairs fun _ _ conflicts => conflicts.lt,
    related.sameProcess.of_allPairs fun _ _ same => same.lt,
    related.neverCoenabled.of_allPairs fun _ _ never => never.lt⟩

/-- The analysis of a description looks for the same violations. -/
theorem checks_ofSystem (memory : s.fitsMemory = true) :
    Checks s.violations (fun a : Analysis => a.Reflects s) (ofSystem s) := by
  cases found : s.violations with
  | nil =>
    have wellFormed := TransitionSystem.violations_eq_nil_iff.mp found
    exact ⟨ofValid s, ofSystem_eq_ok_iff.mpr ⟨memory, wellFormed, rfl⟩, reflects_ofValid wellFormed⟩
  | cons first rest =>
    -- a missing process is the first violation of all
    show ofSystem s = .error (.error first)
    cases processes : s.processViolations with
    | nil =>
      rw [ofSystem, processes, found,
        if_pos (TransitionSystem.footprintsFit_of_fitsMemory memory)]
      rfl
    | cons missing more =>
      have same : missing = first := by
        simp only [TransitionSystem.violations, processes, List.cons_append, List.cons.injEq]
          at found
        exact found.1
      rw [ofSystem, processes, same]
      rfl

/-- **The passes make the analysis of the description**, or refuse it for the same reason. -/
theorem assemble_eq (memory : s.fitsMemory = true) : assemble s = ofSystem s :=
  (checks_assemble memory).result_eq (checks_ofSystem memory) fun _ _ => Reflects.unique

end Analysis

end StateSpace

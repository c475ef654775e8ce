/-
**An analysis reflects its description.**

* `Analysis.Reflects` — every matrix of an analysis holds the relation that the declared footprints
  define, and its lists are those of the description.
* `Analysis.reflects_ofValid` — the analysis of a well-formed description does so.
* `Analysis.Reflects.unique` — no other one does: the description determines every word of every
  matrix.
* `Analysis.Reflects.holds_interference` — what a reduction walks along follows from it.
-/

import StateSpace.Proofs.Analysis.Relations
import StateSpace.Proofs.BitMatrix.Relation

namespace StateSpace

namespace TransitionSystem

/-- Two different transitions have a process in common. -/
def SameProcess (s : TransitionSystem) (t u : Nat) : Prop :=
  t ≠ u ∧ ∃ process, s.HasTag t process ∧ s.HasTag u process

/-- Two guards of the system that may hold together. -/
def Coenabled (s : TransitionSystem) (g h : Nat) : Prop :=
  (g < s.guards.size ∧ h < s.guards.size) ∧ ¬ s.Excludes g h

variable {s : TransitionSystem} {t u g h : Nat}

theorem Conflicts.symm (conflicts : s.Conflicts t u) : s.Conflicts u t := by
  obtain ⟨different, v, writes, writes'⟩ := conflicts
  exact ⟨different.symm, v, writes', writes⟩

theorem SameProcess.symm (same : s.SameProcess t u) : s.SameProcess u t := by
  obtain ⟨different, process, tag, tag'⟩ := same
  exact ⟨different.symm, process, tag', tag⟩

theorem Conflicts.lt (conflicts : s.Conflicts t u) :
    t < s.transitions.size ∧ u < s.transitions.size := by
  obtain ⟨_, v, writes, writes'⟩ := conflicts
  exact ⟨writes.lt, writes'.lt⟩

theorem SameProcess.lt (same : s.SameProcess t u) :
    t < s.transitions.size ∧ u < s.transitions.size := by
  obtain ⟨_, process, tag, tag'⟩ := same
  exact ⟨tag.lt, tag'.lt⟩

theorem NeverCoenabled.lt (never : s.NeverCoenabled t u) :
    t < s.transitions.size ∧ u < s.transitions.size := by
  obtain ⟨_, g, h, has, has', _⟩ := never
  exact ⟨has.lt, has'.lt⟩

/-- Interference in terms of the relations of an analysis. -/
theorem interferes_iff {processLocal : Bool} :
    s.Interferes processLocal t u ↔
      t ≠ u ∧ ¬ s.NeverCoenabled t u ∧
        (s.Dependent t u ∨ processLocal = true ∧ s.SameProcess t u) := by
  unfold Interferes SameProcess
  refine and_congr_right fun different => ?_
  rw [and_iff_right different]

end TransitionSystem

namespace Analysis

/-- **An analysis reflects a description**: its lists are those of the description, and its matrices
hold the relations that the declared footprints define. -/
structure Reflects (a : Analysis) (s : TransitionSystem) : Prop where
  variableCount : a.variableCount = s.variableCount
  labels : a.labels = s.transitions.mapIdx fun number transition =>
    TransitionSystem.labelOf transition number
  processes : a.processes = s.transitions.map fun transition => ascending transition.processes
  guards : a.guards = s.transitions.map fun transition => ascending transition.guards
  read : a.read.Holds s.transitions.size s.variableCount s.Reads
  write : a.write.Holds s.transitions.size s.variableCount s.Writes
  guardRead : a.guardRead.Holds s.guards.size s.variableCount s.GuardReads
  enabling : a.enabling.Holds s.guards.size s.transitions.size fun g t => s.Enables t g
  coenabled : a.coenabled.Holds s.guards.size s.guards.size s.Coenabled
  dependent : a.dependent.Holds s.transitions.size s.transitions.size s.Dependent
  conflict : a.conflict.Holds s.transitions.size s.transitions.size s.Conflicts
  sameProcess : a.sameProcess.Holds s.transitions.size s.transitions.size s.SameProcess
  neverCoenabled : a.neverCoenabled.Holds s.transitions.size s.transitions.size s.NeverCoenabled

variable {s : TransitionSystem} {a b : Analysis}

theorem get_coenabled_iff (wellFormed : s.WellFormed) {g h : Nat} :
    (ofValid s).coenabled.get g h = true ↔ s.Coenabled g h := by
  have cell : (ofValid s).coenabled.get g h = true ↔
      g < s.guards.size ∧ h < s.guards.size ∧ (!s.exclusiveMatrix.get g h) = true :=
    BitMatrix.get_ofRelation
  rw [cell, Bool.not_eq_true', ← Bool.not_eq_true,
    TransitionSystem.get_exclusiveMatrix wellFormed, ← and_assoc]
  rfl

/-- **The analysis of a well-formed description reflects it.** -/
theorem reflects_ofValid (wellFormed : s.WellFormed) : (ofValid s).Reflects s where
  variableCount := rfl
  labels := rfl
  processes := rfl
  guards := rfl
  read := ⟨BitMatrix.ofCells_rows .., BitMatrix.ofCells_cols .., TransitionSystem.tidy_readMatrix,
    TransitionSystem.get_readMatrix wellFormed⟩
  write := ⟨BitMatrix.ofCells_rows .., BitMatrix.ofCells_cols ..,
    TransitionSystem.tidy_writeMatrix, TransitionSystem.get_writeMatrix wellFormed⟩
  guardRead := ⟨BitMatrix.ofCells_rows .., BitMatrix.ofCells_cols ..,
    TransitionSystem.tidy_guardReadMatrix, TransitionSystem.get_guardReadMatrix wellFormed⟩
  enabling := ⟨BitMatrix.ofCells_rows .., BitMatrix.ofCells_cols .., BitMatrix.tidy_ofCells _ _ _,
    TransitionSystem.get_enablingMatrix wellFormed⟩
  coenabled := ⟨rfl, rfl, BitMatrix.tidy_ofRelation _ _ _, get_coenabled_iff wellFormed⟩
  dependent := ⟨rfl, rfl, BitMatrix.tidy_ofRelation _ _ _, get_dependent_iff wellFormed⟩
  conflict := ⟨rfl, rfl, BitMatrix.tidy_ofRelation _ _ _, get_conflict_iff wellFormed⟩
  sameProcess := ⟨rfl, rfl, BitMatrix.tidy_ofRelation _ _ _, get_sameProcess_iff⟩
  neverCoenabled := ⟨rfl, rfl, BitMatrix.tidy_ofRelation _ _ _, get_neverCoenabled_iff wellFormed⟩

namespace Reflects

/-- **A description determines its analysis.** -/
theorem unique (first : a.Reflects s) (second : b.Reflects s) : a = b := by
  cases a
  cases b
  simp only [mk.injEq]
  exact ⟨first.variableCount.trans second.variableCount.symm,
    first.labels.trans second.labels.symm, first.processes.trans second.processes.symm,
    first.guards.trans second.guards.symm, first.read.unique second.read,
    first.write.unique second.write, first.guardRead.unique second.guardRead,
    first.enabling.unique second.enabling, first.coenabled.unique second.coenabled,
    first.dependent.unique second.dependent, first.conflict.unique second.conflict,
    first.sameProcess.unique second.sameProcess,
    first.neverCoenabled.unique second.neverCoenabled⟩

theorem transitionCount_eq (reflects : a.Reflects s) : a.transitionCount = s.transitions.size := by
  rw [transitionCount, reflects.labels, Array.size_mapIdx]

/-- **What a reduction walks along** is interference. -/
theorem holds_interference (reflects : a.Reflects s) (processLocal : Bool) :
    (a.interference processLocal).Holds s.transitions.size s.transitions.size
      (s.Interferes processLocal) := by
  refine ⟨reflects.transitionCount_eq, reflects.transitionCount_eq,
    BitMatrix.tidy_ofRelation _ _ _, fun {t u} => ?_⟩
  rw [interference, BitMatrix.get_ofRelation, reflects.transitionCount_eq]
  simp only [Bool.and_eq_true, Bool.or_eq_true, bne_iff_ne, Bool.not_eq_true', ← Bool.not_eq_true,
    reflects.neverCoenabled.get_iff, reflects.dependent.get_iff, reflects.sameProcess.get_iff,
    and_assoc, ← TransitionSystem.interferes_iff]
  constructor
  · rintro ⟨_, _, interferes⟩
    exact interferes
  · intro interferes
    exact ⟨interferes.lt.1, interferes.lt.2, interferes⟩

end Reflects

end Analysis

end StateSpace

/-
**Which descriptions pass the load-time check.**

* `TransitionSystem.WellFormed` — every number that a description mentions is the number of
  something, transitions have a process, and no guard excludes itself.
* `TransitionSystem.violations_eq_nil_iff` — nothing is found wrong with exactly the well-formed
  descriptions.
* `Analysis.ofSystem_eq_ok_iff` — an analysis is the one of a well-formed description whose
  matrices fit in memory.
-/

import StateSpace.Analysis.Basic
import StateSpace.Proofs.BitMatrix.Cells

namespace StateSpace

/-- A guard refers to variables and transitions that exist. -/
structure Guard.Fits (s : TransitionSystem) (guard : Guard) : Prop where
  reads : ∀ v ∈ guard.reads, v < s.variableCount
  enablers : ∀ t ∈ guard.enablers.getD [], t < s.transitions.size

/-- A transition has a process, and it refers to processes, variables and guards that exist. -/
structure Transition.Fits (s : TransitionSystem) (transition : Transition) : Prop where
  tagged : transition.processes ≠ []
  processes : ∀ p ∈ transition.processes, p < s.processCount
  reads : ∀ v ∈ transition.reads, v < s.variableCount
  writes : ∀ v ∈ transition.writes, v < s.variableCount
  guards : ∀ g ∈ transition.guards, g < s.guards.size

/-- **Everything that a description mentions exists**, and no guard excludes itself. -/
structure TransitionSystem.WellFormed (s : TransitionSystem) : Prop where
  inhabited : 0 < s.transitions.size → 0 < s.processCount
  guards : ∀ {g : Nat} {guard : Guard}, s.guards[g]? = some guard → guard.Fits s
  transitions : ∀ {t : Nat} {transition : Transition},
    s.transitions[t]? = some transition → transition.Fits s
  exclusive : ∀ pair ∈ s.exclusiveGuards,
    pair.1 < s.guards.size ∧ pair.2 < s.guards.size ∧ pair.1 ≠ pair.2

/-! ### Complaints -/

theorem refuseFirst_eq_ok_iff {complaints : List Error} :
    refuseFirst complaints = .ok () ↔ complaints = [] := by
  cases complaints <;> simp [refuseFirst]

theorem outOfBounds_eq_nil_iff {what : String} {bound : Nat} {complaint : String → Error}
    {numbers : List Nat} :
    outOfBounds what bound complaint numbers = [] ↔ ∀ number ∈ numbers, number < bound := by
  simp [outOfBounds, List.filter_eq_nil_iff]

namespace TransitionSystem

theorem processViolations_eq_nil_iff {s : TransitionSystem} :
    s.processViolations = [] ↔ (0 < s.transitions.size → 0 < s.processCount) := by
  unfold processViolations
  split <;> simp <;> omega

theorem guardViolations_eq_nil_iff (s : TransitionSystem) (number : Nat) (guard : Guard) :
    s.guardViolations number guard = [] ↔ guard.Fits s := by
  rw [guardViolations, List.append_eq_nil_iff, outOfBounds_eq_nil_iff, outOfBounds_eq_nil_iff]
  exact ⟨fun ⟨reads, enablers⟩ => ⟨reads, enablers⟩, fun fits => ⟨fits.reads, fits.enablers⟩⟩

theorem transitionViolations_eq_nil_iff (s : TransitionSystem) (number : Nat)
    (transition : Transition) :
    s.transitionViolations number transition = [] ↔ transition.Fits s := by
  simp only [transitionViolations, List.append_eq_nil_iff, outOfBounds_eq_nil_iff]
  constructor
  · rintro ⟨⟨⟨⟨tagged, processes⟩, reads⟩, writes⟩, guards⟩
    refine ⟨fun untagged => ?_, processes, reads, writes, guards⟩
    simp [untagged] at tagged
  · intro fits
    refine ⟨⟨⟨⟨?_, fits.processes⟩, fits.reads⟩, fits.writes⟩, fits.guards⟩
    simp [fits.tagged]

theorem pairViolations_eq_nil_iff {s : TransitionSystem} {pair : Nat × Nat} :
    s.pairViolations pair = [] ↔
      pair.1 < s.guards.size ∧ pair.2 < s.guards.size ∧ pair.1 ≠ pair.2 := by
  rw [pairViolations, List.append_eq_nil_iff, outOfBounds_eq_nil_iff]
  by_cases same : pair.1 = pair.2 <;> simp [same]

/-- There is no complaint about numbered entries if each entry fits. -/
theorem numbered_eq_nil_iff {α : Type} {entries : Array α} {complaints : Nat → α → List Error}
    {fits : α → Prop} (each : ∀ number entry, complaints number entry = [] ↔ fits entry) :
    entries.toList.zipIdx.flatMap (fun (entry, number) => complaints number entry) = [] ↔
      ∀ (number : Nat) (entry : α), entries[number]? = some entry → fits entry := by
  rw [List.flatMap_eq_nil_iff]
  constructor
  · intro all number entry found
    refine (each number entry).mp (all (entry, number) (List.mem_zipIdx_iff_getElem?.mpr ?_))
    rw [Array.getElem?_toList]
    exact found
  · rintro all ⟨entry, number⟩ member
    have found := List.mem_zipIdx_iff_getElem?.mp member
    rw [Array.getElem?_toList] at found
    exact (each number entry).mpr (all number entry found)

/-- **Nothing is wrong with exactly the well-formed descriptions.** -/
theorem violations_eq_nil_iff {s : TransitionSystem} : s.violations = [] ↔ s.WellFormed := by
  have exclusive : s.exclusiveGuards.flatMap s.pairViolations = [] ↔
      ∀ pair ∈ s.exclusiveGuards,
        pair.1 < s.guards.size ∧ pair.2 < s.guards.size ∧ pair.1 ≠ pair.2 := by
    rw [List.flatMap_eq_nil_iff]
    exact forall₂_congr fun _ _ => pairViolations_eq_nil_iff
  rw [violations, List.append_eq_nil_iff, List.append_eq_nil_iff, List.append_eq_nil_iff,
    processViolations_eq_nil_iff, exclusive,
    numbered_eq_nil_iff s.guardViolations_eq_nil_iff,
    numbered_eq_nil_iff s.transitionViolations_eq_nil_iff]
  constructor
  · rintro ⟨⟨⟨inhabited, guardsFit⟩, transitionsFit⟩, pairsFit⟩
    exact ⟨inhabited, fun found => guardsFit _ _ found, fun found => transitionsFit _ _ found,
      pairsFit⟩
  · intro wellFormed
    exact ⟨⟨⟨wellFormed.inhabited, fun _ _ found => wellFormed.guards found⟩,
      fun _ _ found => wellFormed.transitions found⟩, wellFormed.exclusive⟩

theorem footprintsFit_of_fitsMemory {s : TransitionSystem} (memory : s.fitsMemory = true) :
    s.footprintsFit = true :=
  (Bool.and_eq_true_iff.mp memory).1

end TransitionSystem

/-- **What can be analysed**: the well-formed descriptions whose matrices fit in memory. -/
theorem Analysis.ofSystem_eq_ok_iff {s : TransitionSystem} {a : Analysis} :
    Analysis.ofSystem s = .ok a ↔
      s.fitsMemory = true ∧ s.WellFormed ∧ a = Analysis.ofValid s := by
  have inhabited : s.WellFormed → refuseFirst s.processViolations = .ok () := fun wellFormed =>
    refuseFirst_eq_ok_iff.mpr
      (TransitionSystem.processViolations_eq_nil_iff.mpr wellFormed.inhabited)
  have valid : s.WellFormed ↔ refuseFirst s.violations = .ok () :=
    TransitionSystem.violations_eq_nil_iff.symm.trans refuseFirst_eq_ok_iff.symm
  unfold Analysis.ofSystem
  constructor
  · intro analysed
    cases processes : refuseFirst s.processViolations with
    | error cause => simp [processes, orError, bind, Except.bind] at analysed
    | ok _ =>
      by_cases room : s.footprintsFit = true
      · cases checked : refuseFirst s.violations with
        | error cause =>
          simp [processes, room, checked, orError, bind, Except.bind] at analysed
        | ok _ =>
          by_cases memory : s.fitsMemory = true
          · simp only [processes, room, memory, checked, orError, bind, Except.bind, if_true, pure,
              Except.pure, Except.ok.injEq] at analysed
            exact ⟨memory, valid.mpr checked, analysed.symm⟩
          · simp [processes, room, memory, checked, orError, bind, Except.bind] at analysed
      · simp [processes, room, orError, bind, Except.bind] at analysed
  · rintro ⟨memory, wellFormed, rfl⟩
    rw [inhabited wellFormed, valid.mp wellFormed]
    simp [TransitionSystem.footprintsFit_of_fitsMemory memory, memory, orError, bind, Except.bind,
      pure, Except.pure]

/-- The transitions of a description whose matrices fit in memory can be numbered with 64 bits. -/
theorem TransitionSystem.size_lt_of_fitsMemory {s : TransitionSystem}
    (memory : s.fitsMemory = true) : s.transitions.size < UInt64.size :=
  BitMatrix.lt_size_of_fitsMemory (Bool.and_eq_true_iff.mp memory).2

end StateSpace

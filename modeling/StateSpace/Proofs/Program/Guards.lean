/-
**What a model declares of its guards is true.**

Whether a command is enabled is read off its own fields, and whether a guard holds off a table of
conditions; the two meet only in the numbers that a description gives to the guards.

* `Model.guardHolds_eq_true_iff` — a guard is told to hold where its condition is met.
* `Model.offers_iff_guards` — a command is enabled where all guards declared for it hold.
* `Model.exists_enabler_of_replay` — a guard comes to hold only if a transition that can make it
  true fires.
* `Model.guards_truthful` — all that an analysis takes from the declared guards.
-/

import StateSpace.Proofs.Program.Firing

namespace StateSpace

namespace Model

variable {m : Model} {x : m.State}

theorem guardHolds_eq_true_iff {g : Nat} :
    m.interpreter.guardHolds x.1 g = .ok (some true) ↔ m.semantics.holds x g = true := by
  rw [guardHolds_eq x.2]
  cases found : m.program.conditions[g]? with
  | none => simp [semantics, found]
  | some condition => simp [holds_of_getElem? found]

/-- **A command is enabled where all guards declared for it hold.** -/
theorem offers_iff_guards {t : Nat} :
    m.interpreter.Offers x.1 t ↔ t < m.program.commands.size ∧
      ∀ g, m.system.HasGuard t g → m.interpreter.guardHolds x.1 g = .ok (some true) := by
  have size : m.system.transitions.size = m.program.commands.size := Array.size_map
  rw [offers_iff, semantics_enabled_iff, size]
  simp only [guardHolds_eq_true_iff]

/-- Exclusive guards do not hold together. -/
theorem not_guardHolds_of_exclusive {g h : Nat} (declared : (g, h) ∈ m.system.exclusiveGuards) :
    ¬ (m.interpreter.guardHolds x.1 g = .ok (some true) ∧
      m.interpreter.guardHolds x.1 h = .ok (some true)) := by
  rw [guardHolds_eq_true_iff, guardHolds_eq_true_iff]
  exact m.conforms.exclusive declared

/-- Only guards that are declared hold. -/
theorem lt_of_holds {g : Nat} (holds : m.semantics.holds x g = true) :
    g < m.system.guards.size := by
  have size : m.system.guards.size = m.program.conditions.length :=
    m.program.size_guards
  rw [size]
  refine Nat.lt_of_not_le fun beyond => ?_
  simp [semantics, List.getElem?_eq_none beyond] at holds

/-- **A guard comes to hold only if an enabler fires.** -/
theorem exists_enabler_of_replay {g : Nat} {ts : List Nat} {last : List UInt8}
    (fails : m.interpreter.guardHolds x.1 g ≠ .ok (some true))
    (leads : m.interpreter.replay? x.1 ts = some last)
    (holds : m.interpreter.guardHolds last g = .ok (some true)) :
    g < m.system.guards.size ∧ ∃ t ∈ ts, m.system.Enables t g := by
  obtain ⟨y, run, rfl⟩ := replay?_eq_some_iff.mp leads
  rw [guardHolds_eq_true_iff] at holds
  rw [ne_eq, guardHolds_eq_true_iff, Bool.not_eq_true] at fails
  refine ⟨lt_of_holds holds, ?_⟩
  by_contra unable
  have stays := m.conforms.run_holds_eq_false m.wellFormed_system (lt_of_holds holds)
    run.of_restrict (fun t fired enables => unable ⟨t, fired, enables⟩) fails
  rw [holds] at stays
  cases stays

/-- **The declared guards of a program tell the truth.** In every image with a byte per process and
variable the enabled transitions are the commands all of whose declared guards hold, and no two
guards that are declared exclusive hold together. If the analysis of the program fits in memory,
transitions that it takes for never enabled together are not, and a guard that does not hold comes
to hold along no run, free of faults, in which none of the transitions fires that the analysis lists
for it. -/
theorem guards_truthful {p : Program} {m : Model} (accepted : ofProgram p = .ok m) :
    (∀ image : List UInt8, image.length = p.imageSize →
      ∃ enabled, m.interpreter.enabled image = .ok enabled ∧
        (∀ t, t ∈ enabled ↔ t < p.commands.size ∧
          ∀ g, m.system.HasGuard t g → m.interpreter.guardHolds image g = .ok (some true)) ∧
        ∀ g h, (g, h) ∈ m.system.exclusiveGuards →
          ¬ (m.interpreter.guardHolds image g = .ok (some true) ∧
            m.interpreter.guardHolds image h = .ok (some true))) ∧
    (m.system.fitsMemory = true → ∃ a, Analysis.ofSystem m.system = .ok a ∧
      ∀ image : List UInt8, image.length = p.imageSize →
        (∀ t u, m.interpreter.Offers image t → m.interpreter.Offers image u →
          a.neverCoenabled.get t u = false) ∧
        ∀ (g : Nat) (ts : List Nat) (last : List UInt8),
          m.interpreter.guardHolds image g ≠ .ok (some true) →
          m.interpreter.replay? image ts = some last →
          m.interpreter.guardHolds last g = .ok (some true) →
          ∃ enablers, a.enablingSet g = .ok enablers ∧ ∃ t ∈ ts, t ∈ enablers) := by
  obtain rfl := program_of_ofProgram accepted
  refine ⟨fun image sized => ?_, fun memory => ⟨_, analysis_eq memory, fun image sized => ?_⟩⟩
  · obtain ⟨x, rfl⟩ : ∃ x : m.State, x.1 = image := ⟨⟨image, sized⟩, rfl⟩
    refine ⟨m.readyNumbers x.1, Model.enabled_eq x.2, fun t => ?_, fun g h declared => ?_⟩
    · rw [mem_readyNumbers_iff, ← offers_iff, offers_iff_guards]
    · exact not_guardHolds_of_exclusive declared
  · obtain ⟨x, rfl⟩ : ∃ x : m.State, x.1 = image := ⟨⟨image, sized⟩, rfl⟩
    refine ⟨fun t u offers offersOther => ?_, fun g ts last fails leads holds => ?_⟩
    · refine Bool.eq_false_iff.mpr fun never => ?_
      exact m.conforms.not_neverCoenabled (offers_iff.mp offers) (offers_iff.mp offersOther)
        ((Analysis.get_neverCoenabled_iff m.wellFormed_system).mp never)
    · obtain ⟨known, t, fired, enables⟩ := exists_enabler_of_replay fails leads holds
      exact ⟨_, Analysis.enablingSet_eq memory known, t, fired,
        (Analysis.mem_enablersOf m.wellFormed_system).mpr enables⟩

/-- Taking both locks brings the second process to its next location, with a command of its own. -/
theorem guards_truthful_crossedLocks :
    (∀ t, t ∈ [0, 2] ↔ t < 4 ∧ ∀ g, crossedLocksModel.system.HasGuard t g →
      crossedLocksModel.interpreter.guardHolds [0, 0, 0, 0] g = .ok (some true)) ∧
    crossedLocksModel.interpreter.guardHolds [0, 0, 0, 0] 4 = .ok (some false) ∧
    crossedLocksModel.interpreter.replay? [0, 0, 0, 0] [0, 2] = some [1, 1, 1, 1] ∧
    ∃ a, Analysis.ofSystem crossedLocksModel.system = .ok a ∧
      ∃ enablers, a.enablingSet 4 = .ok enablers ∧ ∃ t ∈ [0, 2], t ∈ enablers := by
  have accepted : ofProgram crossedLocks = .ok crossedLocksModel := rfl
  have memory : crossedLocksModel.system.fitsMemory = true := by cbv
  have fails : crossedLocksModel.interpreter.guardHolds [0, 0, 0, 0] 4 = .ok (some false) := by
    decide
  have leads : crossedLocksModel.interpreter.replay? [0, 0, 0, 0] [0, 2] = some [1, 1, 1, 1] := by
    decide
  have holds : crossedLocksModel.interpreter.guardHolds [1, 1, 1, 1] 4 = .ok (some true) := by
    decide
  obtain ⟨declared, analysed⟩ := guards_truthful accepted
  obtain ⟨enabled, listed, exact, _⟩ := declared [0, 0, 0, 0] rfl
  have ready : crossedLocksModel.interpreter.enabled [0, 0, 0, 0] = .ok [0, 2] := by decide
  rw [ready, Except.ok.injEq] at listed
  subst listed
  obtain ⟨a, isAnalysis, tells⟩ := analysed memory
  refine ⟨exact, fails, leads, a, isAnalysis, ?_⟩
  exact (tells [0, 0, 0, 0] rfl).2 4 [0, 2] [1, 1, 1, 1] (by rw [fails]; decide) leads holds

end Model

end StateSpace

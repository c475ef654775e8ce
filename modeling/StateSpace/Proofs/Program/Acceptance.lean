/-
**Which programs are accepted, and what happens to those that are.**

* `Command.objection` — the first thing wrong with a command that does not fit.
* `Program.head?_violations_eq_some_iff` — a program is refused for its first command that does not
  fit.
* `Model.exists_ofProgram_iff`, `Model.ofProgram_eq_error_iff`, `Model.ofProgram_eq_abort_iff` — so
  a program is accepted if all of its commands fit and there is room for its description. Otherwise
  that command is named, or the call breaks off.
* `Model.ofSystem_eq`, `Model.reduced_eq_ofSystem` — the description of an accepted program is not
  refused: an analysis of it, and with it a reduced graph, can be made unless its matrices are too
  large for memory.
* `Model.ofProgram_exact` — all of it together. `Model.crowded` is a program with such matrices.
-/

import Mathlib.Algebra.Order.BigOperators.Group.List
import Mathlib.Algebra.Order.Ring.Nat
import StateSpace.Proofs.Program.Construction
import StateSpace.Proofs.Program.Graphs

namespace StateSpace

/-- **The first thing wrong with a command**, if it does not fit: its process is looked at first,
then its locations and then its bindings. -/
def Command.objection (p : Program) (command : Command) : String :=
  if p.processCount ≤ command.process then "unknown process"
  else if p.locationCount ≤ command.source ∨ p.locationCount ≤ command.target then
    "unknown location"
  else "binding out of range"

/-- **The first complaint about numbered entries** is the first one about the first entry that there
is a complaint about. -/
theorem head?_numbered_eq_some_iff {α : Type} {entries : List α}
    {complaints : Nat → α → List Error} {cause : Error} :
    (entries.zipIdx.flatMap fun (entry, number) => complaints number entry).head? = some cause ↔
      ∃ (number : Nat) (entry : α), entries[number]? = some entry ∧
        (complaints number entry).head? = some cause ∧
        ∀ (earlier : Nat) (other : α), earlier < number → entries[earlier]? = some other →
          complaints earlier other = [] := by
  rw [List.head?_flatMap, List.findSome?_eq_some_iff]
  constructor
  · rintro ⟨before, ⟨entry, number⟩, after, split, first, none⟩
    have here : entries.zipIdx[before.length]? = some (entry, number) := by
      rw [split, List.getElem?_append_right (Nat.le_refl _), Nat.sub_self, List.getElem?_cons_zero]
    rw [List.getElem?_zipIdx, Option.map_eq_some_iff] at here
    obtain ⟨_, found, same⟩ := here
    rw [Prod.mk.injEq, Nat.zero_add] at same
    obtain ⟨rfl, rfl⟩ := same
    refine ⟨_, _, found, first, fun earlier other less found' => ?_⟩
    have listed : entries.zipIdx[earlier]? = some (other, earlier) := by
      rw [List.getElem?_zipIdx, found', Option.map_some, Nat.zero_add]
    rw [split, List.getElem?_append_left less] at listed
    exact List.head?_eq_none_iff.mp (none _ (List.mem_of_getElem? listed))
  · rintro ⟨number, entry, found, first, none⟩
    have here : entries.zipIdx[number]? = some (entry, number) := by
      rw [List.getElem?_zipIdx, found, Option.map_some, Nat.zero_add]
    obtain ⟨inside, same⟩ := List.getElem?_eq_some_iff.mp here
    refine ⟨entries.zipIdx.take number, (entry, number), entries.zipIdx.drop (number + 1), ?_,
      first, fun other member => ?_⟩
    · rw [← same, List.getElem_cons_drop, List.take_append_drop]
    · obtain ⟨earlier, listed⟩ := List.mem_iff_getElem?.mp member
      rw [List.getElem?_take] at listed
      split at listed
      · next less =>
        rw [List.getElem?_zipIdx, Option.map_eq_some_iff] at listed
        obtain ⟨_, found', rfl⟩ := listed
        rw [Nat.zero_add]
        exact List.head?_eq_none_iff.mpr (none earlier _ less found')
      · cases listed

namespace Program

/-- The first complaint about a command. -/
theorem head?_commandViolations_eq_some_iff (p : Program) (number : Nat) (command : Command)
    {cause : Error} :
    (p.commandViolations number command).head? = some cause ↔
      ¬ command.Fits p ∧ cause = .malformedTransition number (command.objection p) := by
  rw [← p.commandViolations_eq_nil_iff number]
  unfold commandViolations Command.objection
  by_cases process : p.processCount ≤ command.process
  · simp only [if_pos process, List.cons_append, List.head?_cons, Option.some.injEq,
      reduceCtorEq, not_false_eq_true, true_and]
    exact eq_comm
  · by_cases location : p.locationCount ≤ command.source ∨ p.locationCount ≤ command.target
    · simp only [if_neg process, if_pos location, List.nil_append, List.cons_append,
        List.head?_cons, Option.some.injEq, reduceCtorEq, not_false_eq_true, true_and]
      exact eq_comm
    · by_cases bindings : command.bindings.all p.admits = true
      · simp only [if_neg process, if_neg location, if_pos bindings, List.nil_append,
          List.head?_nil, reduceCtorEq, not_true_eq_false, false_and]
      · simp only [if_neg process, if_neg location, if_neg bindings, List.nil_append,
          List.head?_cons, Option.some.injEq, reduceCtorEq, not_false_eq_true, true_and]
        exact eq_comm

/-- Whether a command fits can be computed. -/
instance (p : Program) (command : Command) : Decidable (command.Fits p) :=
  decidable_of_iff (p.commandViolations 0 command = []) (p.commandViolations_eq_nil_iff 0 command)

/-- **A program is refused for its first command that does not fit.** -/
theorem head?_violations_eq_some_iff {p : Program} {cause : Error} :
    p.violations.head? = some cause ↔
      ∃ (t : Nat) (command : Command), p.commands[t]? = some command ∧ ¬ command.Fits p ∧
        (∀ (u : Nat) (earlier : Command), u < t → p.commands[u]? = some earlier →
          earlier.Fits p) ∧
        cause = .malformedTransition t (command.objection p) := by
  rw [violations, head?_numbered_eq_some_iff]
  simp only [head?_commandViolations_eq_some_iff, commandViolations_eq_nil_iff,
    Array.getElem?_toList]
  refine exists_congr fun t => exists_congr fun command => ?_
  constructor
  · rintro ⟨found, ⟨misfit, same⟩, first⟩
    exact ⟨found, misfit, first, same⟩
  · rintro ⟨found, misfit, first, same⟩
    exact ⟨found, ⟨misfit, same⟩, first⟩

/-! ### Room for the description -/

theorem length_sharedGuards_le (p : Program) : p.sharedGuards.length ≤ p.commands.size := by
  have inside : p.sharedGuards ⊆ p.commands.toList.filterMap Command.guard := fun binding member =>
    List.mem_eraseDups.mp member
  calc p.sharedGuards.length
      ≤ (p.commands.toList.filterMap Command.guard).length :=
        (List.subperm_of_subset (nodup_eraseDups _) inside).length_le
    _ ≤ p.commands.toList.length := List.length_filterMap_le _ _
    _ = p.commands.size := Array.length_toList

theorem length_sharedPairs_le (numbered : List (Binding × Nat)) :
    (sharedPairs numbered).length ≤ numbered.length * numbered.length := by
  fun_induction sharedPairs numbered with
  | case1 => exact Nat.le_refl _
  | case2 binding number rest ih =>
    have fewer := rest.length_filter_le fun other => binding.excludes other.1
    rw [List.length_append, List.length_map, List.length_cons, Nat.add_mul, Nat.mul_add]
    omega

/-- A guard for a location is paired with fewer guards than a process has locations. -/
theorem length_locationPairs_le (p : Program) :
    p.locationPairs.length ≤ p.locationGuardCount * p.locationGuardCount := by
  have row : ∀ guard ∈ List.range p.locationGuardCount,
      p.locationCount.toNat - 1 - guard % p.locationCount.toNat ≤ p.locationGuardCount := by
    intro guard member
    have some : 0 < p.processCount := by
      by_contra none
      rw [List.mem_range, locationGuardCount, Nat.eq_zero_of_not_pos none, Nat.zero_mul] at member
      exact Nat.not_lt_zero _ member
    have below : p.locationCount.toNat ≤ p.locationGuardCount := Nat.le_mul_of_pos_left _ some
    omega
  rw [locationPairs, List.length_flatMap]
  simp only [List.length_map, List.length_range']
  have sum := List.sum_le_card_nsmul ((List.range p.locationGuardCount).map fun guard =>
    p.locationCount.toNat - 1 - guard % p.locationCount.toNat) p.locationGuardCount
    (List.forall_mem_map.mpr row)
  rwa [List.length_map, List.length_range, nsmul_eq_mul] at sum

/-- **There is room for all programs of a moderate size**, with `2 ^ 29` guards or fewer. -/
theorem describable_of_few {p : Program} (numbered : p.imageSize < UInt64.size)
    (few : p.locationGuardCount + p.commands.size ≤ 536870912) : p.Describable := by
  have limit : allocationLimit = 9223372036854775808 := rfl
  have guards : p.system.guards.size = p.locationGuardCount + p.sharedGuards.length := by
    rw [size_guards, conditions, List.length_append, locationConditions, List.length_map,
      List.length_range, List.length_map]
  have shared := p.length_sharedGuards_le
  have pairs : p.system.exclusiveGuards.length ≤ 536870912 * 536870912 := by
    have first := p.length_locationPairs_le
    have second := length_sharedPairs_le (p.sharedGuards.zipIdx p.locationGuardCount)
    rw [List.length_zipIdx] at second
    calc p.system.exclusiveGuards.length
        = p.locationPairs.length
            + (sharedPairs (p.sharedGuards.zipIdx p.locationGuardCount)).length :=
          List.length_append
      _ ≤ (p.locationGuardCount + p.sharedGuards.length)
            * (p.locationGuardCount + p.sharedGuards.length) := by
          rw [Nat.add_mul, Nat.mul_add, Nat.mul_add]
          omega
      _ ≤ 536870912 * 536870912 := Nat.mul_le_mul (by omega) (by omega)
  exact ⟨numbered, by omega, by omega, by omega⟩

end Program

/-- **The pairs that are looked through for interference**: dependent transitions and, if
process-local, those of a common process. -/
def Analysis.linkedPairs (a : Analysis) (processLocal : Bool) : List (Nat × Nat) :=
  (BitMatrix.ofRelation a.transitionCount a.transitionCount fun t u =>
    a.dependent.get t u || processLocal && a.sameProcess.get t u).cells

namespace Model

/-- **All that the check of a program can say.** It is refused for the first complaint; without one
it is accepted if there is room for its description, and otherwise the call breaks off. -/
theorem ofProgram_cases (p : Program) :
    (∃ first, p.violations.head? = some first ∧ ofProgram p = .error (.error first)) ∨
      p.violations = [] ∧ (p.Describable ∧ (∃ m, ofProgram p = .ok m) ∨
        ¬ p.Describable ∧ ofProgram p = .error (.abort .overflow)) := by
  unfold ofProgram
  split
  · next first rest found => exact .inl ⟨first, by rw [found]; rfl, rfl⟩
  · next inOrder =>
    refine .inr ⟨inOrder, ?_⟩
    by_cases describable : p.Describable
    · exact .inl ⟨describable, _, dif_pos describable⟩
    · exact .inr ⟨describable, dif_neg describable⟩

/-- **A program is accepted if all of its commands fit** and there is room for its description. -/
theorem exists_ofProgram_iff {p : Program} :
    (∃ m, ofProgram p = .ok m) ↔ p.Describable ∧ ∀ (t : Nat) (command : Command),
      p.commands[t]? = some command → command.Fits p := by
  rw [← Program.violations_eq_nil_iff]
  rcases ofProgram_cases p with ⟨first, found, refused⟩ |
    ⟨inOrder, ⟨describable, accepted⟩ | ⟨crowded, aborted⟩⟩
  · refine iff_of_false ?_ ?_
    · rintro ⟨m, accepted⟩
      rw [refused] at accepted
      cases accepted
    · rintro ⟨_, inOrder⟩
      rw [inOrder] at found
      cases found
  · exact iff_of_true accepted ⟨describable, inOrder⟩
  · refine iff_of_false ?_ fun both => crowded both.1
    rintro ⟨m, accepted⟩
    rw [aborted] at accepted
    cases accepted

/-- **It is refused for the first command that does not fit.** -/
theorem ofProgram_eq_error_iff {p : Program} {cause : Error} :
    ofProgram p = .error (.error cause) ↔
      ∃ (t : Nat) (command : Command), p.commands[t]? = some command ∧ ¬ command.Fits p ∧
        (∀ (u : Nat) (earlier : Command), u < t → p.commands[u]? = some earlier →
          earlier.Fits p) ∧
        cause = .malformedTransition t (command.objection p) := by
  rw [← Program.head?_violations_eq_some_iff]
  rcases ofProgram_cases p with ⟨first, found, refused⟩ |
    ⟨inOrder, ⟨_, m, accepted⟩ | ⟨_, aborted⟩⟩
  · rw [refused, found, Except.error.injEq, Failure.error.injEq, Option.some.injEq]
  · rw [accepted, inOrder]
    exact iff_of_false (fun refused => by cases refused) fun found => by cases found
  · rw [aborted, inOrder]
    exact iff_of_false (fun refused => by cases refused) fun found => by cases found

/-- **The call breaks off** if there is no room for the description of commands that fit. -/
theorem ofProgram_eq_abort_iff {p : Program} {cause : Abort} :
    ofProgram p = .error (.abort cause) ↔
      cause = .overflow ∧ ¬ p.Describable ∧ ∀ (t : Nat) (command : Command),
        p.commands[t]? = some command → command.Fits p := by
  rw [← Program.violations_eq_nil_iff]
  rcases ofProgram_cases p with ⟨first, found, refused⟩ |
    ⟨inOrder, ⟨describable, m, accepted⟩ | ⟨crowded, aborted⟩⟩
  · rw [refused]
    refine iff_of_false (fun aborted => by cases aborted) ?_
    rintro ⟨_, _, inOrder⟩
    rw [inOrder] at found
    cases found
  · rw [accepted]
    exact iff_of_false (fun aborted => by cases aborted) fun all => all.2.1 describable
  · rw [aborted, Except.error.injEq, Failure.abort.injEq]
    exact ⟨fun same => ⟨same.symm, crowded, inOrder⟩, fun all => all.1.symm⟩

variable {m : Model}

/-- **The description of an accepted program is never refused.** It is analysed if its matrices fit
in memory, and otherwise the analysis breaks off. -/
theorem ofSystem_eq (m : Model) :
    Analysis.ofSystem m.system = if m.system.fitsMemory then .ok (Analysis.ofValid m.system)
      else .error (.abort .overflow) := by
  have wellFormed : m.system.WellFormed := Program.system_wellFormed m.inOrder
  by_cases memory : m.system.fitsMemory = true
  · rw [if_pos memory]
    exact Analysis.ofSystem_eq_ok_iff.mpr ⟨memory, wellFormed, rfl⟩
  · have inhabited : m.system.processViolations = [] :=
      TransitionSystem.processViolations_eq_nil_iff.mpr wellFormed.inhabited
    have inOrder : m.system.violations = [] :=
      TransitionSystem.violations_eq_nil_iff.mpr wellFormed
    rw [if_neg memory, Analysis.ofSystem, inhabited, inOrder, if_neg memory]
    by_cases room : m.system.footprintsFit = true
    · rw [if_pos room]
      rfl
    · rw [if_neg room]
      rfl

/-- **Neither is it refused by a reduction.** -/
theorem reduced_eq_ofSystem {i : Interpreter} (describes : i.system = m.system) (policy : Policy)
    (options : Options) :
    Interpreted.reduced i policy options = if m.system.fitsMemory then
        .ok ⟨i, policy, some (.ofAnalysis (Analysis.ofValid m.system) options)⟩
      else .error (.abort .overflow) := by
  rw [Interpreted.reduced, Reducer.ofSystem, describes, ofSystem_eq]
  by_cases memory : m.system.fitsMemory = true
  · rw [if_pos memory, if_pos memory]
    rfl
  · rw [if_neg memory, if_neg memory]
    rfl

/-- **The two checks of a program agree.** It is accepted if all of its commands fit and there is
room for its description. It is refused for the first command that does not fit, with the first
thing wrong with that; and the call breaks off if there is only no room. The description of an
accepted program is built in one pass over its commands. It is analysed if its matrices fit in
memory, and then a reduced graph is made for it under all policies and options for which the pairs
that are looked through can be listed. It is never refused: with larger matrices both calls break
off. -/
theorem ofProgram_exact (p : Program) :
    ((∃ m, ofProgram p = .ok m) ↔ p.Describable ∧ ∀ (t : Nat) (command : Command),
      p.commands[t]? = some command → command.Fits p) ∧
    (∀ cause, ofProgram p = .error (.error cause) ↔
      ∃ (t : Nat) (command : Command), p.commands[t]? = some command ∧ ¬ command.Fits p ∧
        (∀ (u : Nat) (earlier : Command), u < t → p.commands[u]? = some earlier →
          earlier.Fits p) ∧
        cause = .malformedTransition t (command.objection p)) ∧
    (∀ cause, ofProgram p = .error (.abort cause) ↔
      cause = .overflow ∧ ¬ p.Describable ∧ ∀ (t : Nat) (command : Command),
        p.commands[t]? = some command → command.Fits p) ∧
    ∀ m, ofProgram p = .ok m →
      m.system = p.build ∧
      (if m.system.fitsMemory then
        ∃ a, Analysis.ofSystem m.system = .ok a ∧ ∀ policy options,
          32 * (a.linkedPairs options.processLocal).length ≤ allocationLimit →
            ∃ graph, Interpreted.reduced m.interpreter policy options = .ok graph
      else Analysis.ofSystem m.system = .error (.abort .overflow) ∧
        ∀ policy options, Interpreted.reduced m.interpreter policy options
          = .error (.abort .overflow)) ∧
      ∀ policy options cause,
        Interpreted.reduced m.interpreter policy options ≠ .error (.error cause) := by
  refine ⟨exists_ofProgram_iff, fun cause => ofProgram_eq_error_iff,
    fun cause => ofProgram_eq_abort_iff, fun m made => ⟨?_, ?_⟩⟩
  · rw [Program.build_eq, system, program_of_ofProgram made]
  · have reduced := fun policy options =>
      reduced_eq_ofSystem (m := m) (i := m.interpreter) rfl policy options
    have analysed := m.ofSystem_eq
    by_cases memory : m.system.fitsMemory = true
    · simp only [if_pos memory] at reduced analysed ⊢
      refine ⟨⟨_, analysed, fun policy options _ => ⟨_, reduced policy options⟩⟩, ?_⟩
      intro policy options cause refused
      rw [reduced] at refused
      cases refused
    · simp only [if_neg memory] at reduced analysed ⊢
      refine ⟨⟨analysed, reduced⟩, fun policy options cause refused => ?_⟩
      rw [reduced] at refused
      cases refused

/-- One process that sets a variable and goes on. -/
def oneStep : Program where
  processCount := 1
  locationCount := 2
  variableCount := 1
  domain := 2
  commands := #[⟨0, 0, 1, none, some ⟨0, 1⟩, none⟩]

/-- One process that goes on to a location that it does not have, under a condition on a variable
that there is not, and a process that there is not. -/
def strayStep : Program where
  processCount := 1
  locationCount := 2
  variableCount := 1
  domain := 2
  commands := #[⟨0, 0, 1, none, some ⟨0, 1⟩, none⟩, ⟨0, 1, 2, some ⟨1, 0⟩, none, none⟩,
    ⟨1, 0, 0, none, none, none⟩]

/-- Idle processes, one guard for each, and more of them than guards can be listed. -/
def swarm : Program where
  processCount := 4611686018427387904
  locationCount := 1
  variableCount := 1
  domain := 1
  commands := #[]

theorem swarm_not_describable : ¬ swarm.Describable := by
  intro describable
  have many : swarm.system.guards.size = 4611686018427387904 := by
    rw [Program.size_guards, Program.conditions, List.length_append, Program.locationConditions,
      List.length_map, List.length_range]
    rfl
  have few := describable.guards
  rw [many] at few
  revert few
  decide

/-- The first program is accepted and analysed. The second is refused for its second command, and
for the location there. For the third the call breaks off. -/
theorem ofProgram_exact_oneStep :
    oneStep.Describable ∧
      (∃ m, ofProgram oneStep = .ok m ∧ (∃ a, Analysis.ofSystem m.system = .ok a) ∧
        ∀ policy options, ∃ graph,
          Interpreted.reduced m.interpreter policy options = .ok graph) ∧
      ofProgram strayStep = .error (.error (.malformedTransition 1 "unknown location")) ∧
      ofProgram swarm = .error (.abort .overflow) := by
  have accepted := ofProgram_exact oneStep
  have refused := ofProgram_exact strayStep
  have aborted := ofProgram_exact swarm
  refine ⟨by decide, ?_, (refused.2.1 _).mpr
    ⟨1, ⟨0, 1, 2, some ⟨1, 0⟩, none, none⟩, rfl, by decide, ?_, rfl⟩,
    (aborted.2.2.1 _).mpr ⟨rfl, swarm_not_describable, fun t command listed => by cases listed⟩⟩
  · obtain ⟨m, made⟩ := accepted.1.mpr ⟨by decide, fun t command listed => by
      match t with
      | 0 =>
        obtain rfl := Option.some.inj listed
        decide
      | _ + 1 => cases listed⟩
    have same : m.system = oneStep.system := congrArg Program.system (program_of_ofProgram made)
    have memory : m.system.fitsMemory = true := by
      rw [same]
      cbv
    have outcome := (accepted.2.2.2 m made).2.1
    rw [if_pos memory] at outcome
    obtain ⟨a, analysed, reduced⟩ := outcome
    have known := m.ofSystem_eq
    rw [if_pos memory, analysed, Except.ok.injEq, same] at known
    have few : ∀ processLocal, 32 * (a.linkedPairs processLocal).length ≤ allocationLimit := by
      intro processLocal
      rw [known]
      cases processLocal <;> decide +kernel
    exact ⟨m, made, ⟨a, analysed⟩, fun policy options => reduced policy options (few _)⟩
  · intro u earlier less listed
    obtain rfl : u = 0 := by omega
    obtain rfl := Option.some.inj listed
    decide

/-- Four idle commands of one process. Each row of what they read takes `2 ^ 58` words, and all of
them together more than can be allocated. -/
def crowded : Program where
  processCount := 1
  locationCount := 1
  variableCount := 18446744073709551614
  domain := 1
  commands := Array.replicate 4 ⟨0, 0, 0, none, none, none⟩

/-- **Numbered bytes and guards are not enough** for an accepted program to be analysed or
reduced. -/
theorem crowded_not_analysed :
    crowded.imageSize < UInt64.size ∧ crowded.system.guards.size < UInt64.size ∧
      ∃ m, ofProgram crowded = .ok m ∧ (∀ a, Analysis.ofSystem m.system ≠ .ok a) ∧
        ∀ policy options graph, Interpreted.reduced m.interpreter policy options ≠ .ok graph := by
  have large : crowded.system.fitsMemory = false := by cbv
  refine ⟨by decide, by decide, ⟨crowded, by decide, by decide⟩, rfl, ?_, ?_⟩
  · intro a made
    rw [ofSystem_eq, system, large] at made
    cases made
  · intro policy options graph made
    rw [reduced_eq_ofSystem rfl, system, large] at made
    cases made

end Model

end StateSpace

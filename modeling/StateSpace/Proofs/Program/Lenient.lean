/-
**Lenient searches of stubborn sets and the deadlocks of a program.**

Under the lenient policy a command at fault fires without leading anywhere. If all enabled commands
of a stubborn set are at fault, the reduced search takes a state for a deadlock that is none
(`Model.failOrMove_stuck`). It then goes no further, and may miss the deadlocks beyond.

* `Model.Fires.succeeds_lenient` — a lenient search does not fail.
* `Model.clean_of_no_faults` — where an expansion tolerates no fault, none of the commands that
  fire is at fault.
* `Model.explore_lenient_deadlocks` — before every deadlock, if not at it, one is reported. All are
  reported, and nothing else, exactly if no reported state has a successor in the full graph; and
  this is so if no fault was tolerated in the reported states.
-/

import StateSpace.Proofs.Program.Faults

namespace StateSpace

open Explorable

namespace Model

variable {m : Model}

theorem initialImage_of_allocated (inhabited : 0 < m.program.processCount)
    (allocated : m.program.imageSize < allocationLimit) :
    m.interpreter.initialImage = .ok (State.zero m).image := by
  have made : m.interpreter.initial.get = m.initial := rfl
  rw [Interpreter.initialImage, made, initial, if_neg (Nat.pos_iff_ne_zero.mp inhabited),
    if_pos allocated]
  exact congrArg Except.ok (interpreter_image (State.zero m))

section Lenient

variable {G : Type} [Explorable G] {graph : G} {members : m.State → Nat → Prop}

/-- Nothing fails under the lenient policy. -/
theorem Fires.succeeds_lenient (fires : m.Fires graph .lenient members) (state : Image)
    (reachable : Reachable graph state) : ∃ targets, next graph state = .ok targets := by
  obtain ⟨x, rfl⟩ := fires.moves.isState reachable
  rcases fires.next_cases x with ⟨isStrict, _⟩ | ⟨_, _, expands, _⟩
  · cases isStrict
  · exact ⟨_, expands⟩

end Lenient

section Reduced

variable {i : Interpreter} {options : Options} (executes : m.Executes i)
  (memory : m.system.fitsMemory = true) (method : options.method = .stubbornSet)

include executes memory method

/-- **Where no fault was tolerated**, no command that fires is at fault. -/
theorem clean_of_no_faults {x : m.State}
    (none : ∀ expansion, ((m.reducedGraph i .lenient options .initial).expand x.image).1
      = .ok expansion → expansion.faults = [])
    {t : Nat} (enabled : m.semantics.enabled x t)
    (member : (m.stubbornSet i options x).has t = true) : ¬ x.Faulty t := by
  have kept : ∀ t ∈ Interpreted.kept (m.readyNumbers x.1) (m.flagsOf i options x),
      m.semantics.enabled x t := fun t member => enabled_of_mem_kept member
  obtain ⟨expansion, executed, _, faults⟩ :=
    exists_execute_of_tolerated kept (.inl rfl : Policy.lenient = .lenient ∨ _)
  have expanded : ((m.reducedGraph i .lenient options .initial).expand x.image).1
      = .ok expansion := by
    rw [(tame_reduced executes memory .lenient options).expand_eq ⟨x, rfl⟩, keptList_eq executes,
      ← executed, ← executes.execute]
    rfl
  refine (faults rfl).mp (none expansion expanded) t ?_
  rw [kept_stubborn method]
  exact List.mem_filter.mpr ⟨mem_readyNumbers_iff.mpr enabled, member⟩

end Reduced

/-- **Lenient searches of stubborn sets and deadlocks.** Take a program with a process that is
accepted, whose states can be allocated and whose analysis fits in memory, and an interpreter with
or without knowledge of the guards. The full search succeeds, and so does the one of stubborn sets,
process-local or not, if the statistics have room for its states. Each reports no deadlock twice.
From a state that the latter reports one gets to every deadlock of the former. The two report the
same deadlocks exactly if no state that the latter reports has a successor in the full graph; and
they do if no fault was tolerated in these states. -/
theorem explore_lenient_deadlocks {p : Program} {m : Model} (accepted : ofProgram p = .ok m)
    (inhabited : 0 < p.processCount) (allocated : p.imageSize < allocationLimit)
    (memory : m.system.fitsMemory = true) {i : Interpreter}
    (either : i = m.interpreter ∨ i = m.interpreter.bare) {options : Options}
    (method : options.method = .stubbornSet) :
    ∃ graph outcome outcome' report, Interpreted.reduced i .lenient options = .ok graph ∧
      explore p.stateBound (Interpreted.full i .lenient) {} (fun _ _ => false) = some outcome ∧
      outcome.result = .ok report ∧ report.deadlocks.toList.Nodup ∧
      explore p.stateBound graph {} (fun _ _ => false) = some outcome' ∧
      (i.Countable outcome'.looked → ∃ report', outcome'.result = .ok report' ∧
        report'.deadlocks.toList.Nodup ∧
        (∀ dead ∈ report.deadlocks.toList, ∃ state ∈ report'.deadlocks.toList,
          Relation.ReflTransGen (Edge (Interpreted.full i .lenient)) state dead) ∧
        ((∀ state, state ∈ report'.deadlocks.toList ↔ state ∈ report.deadlocks.toList) ↔
          ∀ state ∈ report'.deadlocks.toList,
            next (Interpreted.full i .lenient) state = .ok []) ∧
        ((∀ state ∈ report'.deadlocks.toList, ∀ expansion,
            (graph.expand state).1 = .ok expansion → expansion.faults = []) →
          ∀ state, state ∈ report'.deadlocks.toList ↔ state ∈ report.deadlocks.toList)) := by
  have executes := executes_of_either either
  have same := program_of_ofProgram accepted
  subst same
  have starts := initialImage_of_allocated inhabited allocated
  have fires := fires_full executes .lenient
  have fires' := fires_stubborn executes memory .lenient method
  obtain ⟨outcome, explored⟩ :=
    fires.moves.exists_explore (Interpreted.functional_full i .lenient) {} fun _ _ => false
  -- both graphs walk the commands that are not at fault
  have walks := fires.walks starts fires.succeeds_lenient
  have walks' := fires'.walks starts fires'.succeeds_lenient
  rw [Semantics.restrict_true] at walks
  obtain ⟨report, succeeded, exact⟩ := walks.exists_exact
    (verdict_of_explore (Interpreted.functional_full i .lenient) fires.moves.apart explored)
  obtain ⟨outcome', ended, settled⟩ := exists_explore_reduced executes memory .lenient options
  refine ⟨_, outcome, outcome', report, reduced_eq executes memory .lenient options, explored,
    succeeded, exact.nodup_deadlocks, ended, fun countable => ?_⟩
  obtain ⟨report', succeeded', exact'⟩ := walks'.exists_exact
    (settled.resolve_left fun crowded => crowded.2 countable)
  have stubborn := stubborn_faultless executes options
  have agree := walks.deadlocks_agree_iff walks' stubborn
  simp only [← exact.mem_deadlocks, ← exact'.mem_deadlocks, ← and_imp] at agree
  refine ⟨report', succeeded', exact'.nodup_deadlocks, fun dead member => ?_, agree,
    fun none state => ?_⟩
  · obtain ⟨reachable, isDead⟩ := (exact.mem_deadlocks dead).mp member
    obtain ⟨before, reachable', isDead', path⟩ :=
      walks.exists_deadlock_before walks' stubborn reachable isDead
    exact ⟨before, (exact'.mem_deadlocks before).mpr ⟨reachable', isDead'⟩, path⟩
  · rw [exact'.mem_deadlocks, exact.mem_deadlocks]
    refine walks.deadlock_iff walks' stubborn fun x reachable' isDead' t enabled => ?_
    obtain ⟨u, fired, inSet⟩ := exists_enabled_member i options enabled.1
    have reported := (exact'.mem_deadlocks _).mpr ⟨reachable', isDead'⟩
    have clean := clean_of_no_faults executes memory method (none _ reported) fired inSet
    exact ⟨u, ⟨fired, clean⟩, inSet⟩

/-! ### A process at fault -/

/-- A process whose only step is a fault, and another one that can move. -/
def failOrMove : Program where
  processCount := 2
  locationCount := 2
  variableCount := 1
  domain := 2
  commands := #[⟨0, 0, 1, none, none, some ⟨0, 0⟩⟩, ⟨1, 0, 1, none, none, none⟩]

def failOrMoveModel : Model :=
  ⟨failOrMove, by decide, by decide⟩

theorem explore_full_failOrMove :
    (explore failOrMove.stateBound (Interpreted.full failOrMoveModel.interpreter .lenient) {}
      (fun _ _ => false)).map Outcome.result
        = some (.ok { states := 2, transitions := 1, deadlocks := #[.ofBytes [0, 1, 0]] }) :=
  rfl

theorem explore_reduced_failOrMove (processLocal : Bool) :
    Interpreted.findings failOrMoveModel.interpreter .lenient ⟨.stubbornSet, processLocal⟩
        failOrMove.stateBound
      = some (.ok { states := 1, deadlocks := #[.ofBytes [0, 0, 0]] },
          [.ofBytes [0, 0, 0]]) := by
  revert processLocal
  decide +kernel

/-- **A deadlock that is none.** In the initial state the second process can move, and the state
after that is the only deadlock. The reduced search fires the command at fault alone, reports the
initial state and never gets to the deadlock. -/
theorem failOrMove_stuck :
    ofProgram failOrMove = .ok failOrMoveModel ∧
      next (Interpreted.full failOrMoveModel.interpreter .lenient) (.ofBytes [0, 0, 0])
        = .ok [.ofBytes [0, 1, 0]] ∧
      (∃ outcome report, explore failOrMove.stateBound
          (Interpreted.full failOrMoveModel.interpreter .lenient) {} (fun _ _ => false)
            = some outcome ∧
        outcome.result = .ok report ∧ report.deadlocks.toList = [.ofBytes [0, 1, 0]]) ∧
      ∀ processLocal, ∃ graph outcome report,
        Interpreted.reduced failOrMoveModel.interpreter .lenient ⟨.stubbornSet, processLocal⟩
          = .ok graph ∧
        explore failOrMove.stateBound graph {} (fun _ _ => false) = some outcome ∧
        outcome.result = .ok report ∧ report.deadlocks.toList = [.ofBytes [0, 0, 0]] := by
  refine ⟨rfl, by decide +kernel, ?_, fun processLocal => ?_⟩
  · obtain ⟨outcome, explored, succeeded⟩ := Option.map_eq_some_iff.mp explore_full_failOrMove
    exact ⟨outcome, _, explored, succeeded, rfl⟩
  · obtain ⟨graph, outcome, reduced, explored, found⟩ :=
      Interpreted.findings_eq_some_iff.mp (explore_reduced_failOrMove processLocal)
    exact ⟨graph, outcome, _, reduced, explored, (Prod.mk.inj found).1, rfl⟩

/-- From the state that is reported one gets to the deadlock. -/
theorem explore_lenient_deadlocks_failOrMove :
    Relation.ReflTransGen (Edge (Interpreted.full failOrMoveModel.interpreter .lenient))
      (.ofBytes [0, 0, 0]) (.ofBytes [0, 1, 0]) := by
  have accepted : ofProgram failOrMove = .ok failOrMoveModel := rfl
  have method : (⟨.stubbornSet, false⟩ : Options).method = .stubbornSet := rfl
  obtain ⟨graph, outcome, outcome', report, reduced, explored, succeeded, _, ended, found⟩ :=
    explore_lenient_deadlocks accepted (by decide) (by decide) (by decide +kernel) (.inl rfl) method
  have full := explore_full_failOrMove
  have stuck := explore_reduced_failOrMove false
  rw [explored, Option.map_some, succeeded, Option.some.injEq, Except.ok.injEq] at full
  rw [Interpreted.findings_eq_some_iff.mpr ⟨graph, outcome', reduced, ended, rfl⟩,
    Option.some.injEq, Prod.mk.injEq] at stuck
  have countable : failOrMoveModel.interpreter.Countable outcome'.looked := by
    rw [stuck.2]
    decide +kernel
  obtain ⟨report', succeeded', _, before, _⟩ := found countable
  rw [stuck.1, Except.ok.injEq] at succeeded'
  subst full succeeded'
  obtain ⟨state, member, path⟩ := before (.ofBytes [0, 1, 0]) (List.mem_singleton.mpr rfl)
  rw [List.mem_singleton.mp member] at path
  exact path

end Model

end StateSpace

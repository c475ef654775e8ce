/-
**On programs the method `base` prunes nothing.**

All commands of a process write its location, and two enabled commands are never declared not to be
enabled together. So the enabled commands of a process interfere, and a seed brings in all of them.

* `Model.mem_interference_of_process` — they interfere.
* `Model.flags_base` — so all enabled commands are kept, in every state.
* `Model.base_keeps_everything` — a search with this method ends like the full one, whatever it
  tolerates and wherever it stops.
-/

import StateSpace.Proofs.Program.Deadlocks
import StateSpace.Proofs.Reduction.Base

namespace StateSpace

open Explorable

/-- The process of a command is its tag. -/
theorem Program.processesOf_system {p : Program} {t : Nat} {command : Command}
    (used : p.commands[t]? = some command) :
    (Analysis.ofValid p.system).processesOf t = [command.process] := by
  have found : p.system.transitions[t]? = some (p.transition p.sharedGuards command) := by
    rw [getElem?_transitions, used]
    rfl
  simp only [Analysis.processesOf, Analysis.ofValid, Array.getD_eq_getD_getElem?,
    Array.getElem?_map, found]
  rfl

namespace Model

variable {m : Model}

/-- **Enabled commands of a process interfere.** -/
theorem mem_interference_of_process (options : Options) {x : m.State} {t u : Nat}
    {command other : Command} (used : m.program.commands[t]? = some command)
    (used' : m.program.commands[u]? = some other) (process : command.process = other.process)
    (enabled : m.semantics.enabled x t) (enabled' : m.semantics.enabled x u) (different : t ≠ u) :
    u ∈ (Reducer.ofAnalysis (Analysis.ofValid m.system) options).interference.columns t := by
  have writes : m.system.Writes t command.process :=
    Program.writes_iff.mpr ⟨command, used, .inl rfl⟩
  have writes' : m.system.Writes u command.process :=
    Program.writes_iff.mpr ⟨other, used', .inl process⟩
  exact Analysis.mem_interference (Program.system_wellFormed m.inOrder) different
    ⟨command.process, .inr (.inl ⟨writes, writes'⟩)⟩
    (m.conforms.not_neverCoenabled enabled enabled')

/-- Every enabled command is a member. -/
theorem has_baseMembers (options : Options) {x : m.State} {t : Nat}
    (member : t ∈ m.readyNumbers x.1) :
    ((Reducer.ofAnalysis (Analysis.ofValid m.system) options).baseMembers
      (m.readyNumbers x.1)).has t = true := by
  obtain ⟨command, used, _⟩ := mem_readyNumbers.mp member
  have tag : command.process
      ∈ (Reducer.ofAnalysis (Analysis.ofValid m.system) options).analysis.processesOf t := by
    show command.process ∈ (Analysis.ofValid m.system).processesOf t
    rw [system, Program.processesOf_system used]
    exact List.mem_singleton.mpr rfl
  refine Reducer.has_baseMembers_of_meeting (lt_of_mem_readyNumbers options) ?_ member tag
  intro u member' different tag'
  obtain ⟨other, used', _⟩ := mem_readyNumbers.mp member'
  have tag' : command.process ∈ (Analysis.ofValid m.system).processesOf u := tag'
  rw [system, Program.processesOf_system used', List.mem_singleton] at tag'
  exact mem_interference_of_process options used' used tag'.symm (mem_readyNumbers_iff.mp member')
    (mem_readyNumbers_iff.mp member) different

/-- **All enabled commands are kept.** -/
theorem flags_base {options : Options} (method : options.method = .base) (x : m.State)
    (holds : Oracle) :
    (Reducer.ofAnalysis (Analysis.ofValid m.system) options).flags (m.readyNumbers x.1) holds
      = List.replicate (m.readyNumbers x.1).length true := by
  have isBase : (Reducer.ofAnalysis (Analysis.ofValid m.system) options).options.method = .base :=
    method
  have all : ∀ t ∈ m.readyNumbers x.1,
      ((Reducer.ofAnalysis (Analysis.ofValid m.system) options).baseMembers
        (m.readyNumbers x.1)).has t = true := fun t member => has_baseMembers options member
  unfold Reducer.flags
  cases enabled : m.readyNumbers x.1 with
  | nil => rfl
  | cons first rest =>
    cases rest with
    | nil => rfl
    | cons second rest =>
      rw [enabled] at all
      simp only [Reducer.members, isBase]
      rw [List.map_congr_left all, List.map_const']

theorem kept_replicate (enabled : List Nat) :
    Interpreted.kept enabled (List.replicate enabled.length true) = enabled := by
  have flags : List.replicate enabled.length true = enabled.map fun _ => true :=
    List.map_const'.symm
  rw [flags, Interpreted.kept_map, List.filter_true]

/-- **A reduction keeps every enabled command**, whatever is known of the guards, and it counts
them. -/
theorem reduce_base {options : Options} (method : options.method = .base) (x : m.State)
    (holds : Oracle) (stats : Stats) :
    ({ Reducer.ofAnalysis (Analysis.ofValid m.system) options with stats := stats }
        : Reducer).reduce (m.readyNumbers x.1) holds
      = (orAbort (stats.record (m.readyNumbers x.1).length (m.readyNumbers x.1).length)).map
          fun later => (List.replicate (m.readyNumbers x.1).length true,
            { Reducer.ofAnalysis (Analysis.ofValid m.system) options with stats := later }) := by
  have flags : ({ Reducer.ofAnalysis (Analysis.ofValid m.system) options with stats := stats }
      : Reducer).flags (m.readyNumbers x.1) holds
        = List.replicate (m.readyNumbers x.1).length true :=
    (Reducer.flags_stats _ _ _ _).trans (flags_base method x holds)
  have inside : ∀ t ∈ m.readyNumbers x.1,
      t < ({ Reducer.ofAnalysis (Analysis.ofValid m.system) options with stats := stats }
        : Reducer).transitionCount := lt_of_mem_readyNumbers options
  rw [Reducer.reduce_eq inside, flags, List.count_replicate_self]

/-! ### Whole searches -/

variable {i : Interpreter}

/-- In the full graph the same commands fire as in the reduced one. -/
theorem next_full_eq_kept (executes : m.Executes i) (policy : Policy) {options : Options}
    (method : options.method = .base) (x : m.State) :
    next (Interpreted.full i policy) x.image
      = (i.execute policy x.image ((m.reducedGraph i policy options .initial).keptList
          (Reducer.ofAnalysis (Analysis.ofValid m.system) options) x.image)).map
            Expansion.states := by
  have all : Interpreted.kept (m.readyNumbers x.1) (m.flagsOf i options x)
      = m.readyNumbers x.1 := by
    rw [flagsOf, flags_base method, kept_replicate]
  rw [next_full executes, keptList_eq executes, all, executes.execute]

theorem explore_base_alike (executes : m.Executes i) (memory : m.system.fitsMemory = true)
    (policy : Policy) {options : Options} (method : options.method = .base) {limits : Limits}
    {done : Nat → Image → Bool} {bound : Nat} {outcome : Outcome Interpreted}
    (explored : explore bound (.full i policy) limits done = some outcome) :
    ∃ outcome', explore bound (m.reducedGraph i policy options .initial) limits done
        = some outcome' ∧
      Search.EndsAlike (fun states => ¬ i.Countable states) outcome' outcome := by
  have moves := (fires_full executes policy).moves
  have same : ∀ state, m.IsState state → next (Interpreted.full i policy) state
      = (i.execute policy state ((m.reducedGraph i policy options .initial).keptList
          (Reducer.ofAnalysis (Analysis.ofValid m.system) options) state)).map
            Expansion.states := by
    rintro _ ⟨x, rfl⟩
    exact next_full_eq_kept executes policy method x
  exact (tame_reduced executes memory policy options).explore_lockstep
    (Interpreted.successors_full_snd i policy) rfl (fun _ _ => rfl) same
    (fun state begins => ⟨_, moves.starts begins⟩) moves.closed explored

/-- **On programs the method `base` keeps everything.** Take a program that is accepted and whose
analysis fits in memory. In every state a reduction sets the flags of all enabled commands. So for
every policy the reduced search ends within the same bound as the full one, with the same report or
failure after the same states, wherever it stops and whatever its ceiling; it takes only that the
states of the full search have room in the statistics. -/
theorem base_keeps_everything {p : Program} {m : Model} (accepted : ofProgram p = .ok m)
    (memory : m.system.fitsMemory = true) {i : Interpreter}
    (either : i = m.interpreter ∨ i = m.interpreter.bare) {options : Options}
    (method : options.method = .base) :
    ∃ r, Reducer.ofSystem i.system options = .ok r ∧
      (∀ image : List UInt8, image.length = p.imageSize →
        ∃ enabled, i.enabled image = .ok enabled ∧ ∀ holds stats,
          ({ r with stats := stats } : Reducer).reduce enabled holds
            = (orAbort (stats.record enabled.length enabled.length)).map fun later =>
                (List.replicate enabled.length true, { r with stats := later })) ∧
      ∀ policy, ∃ graph, Interpreted.reduced i policy options = .ok graph ∧
        ∀ limits done, ∃ outcome outcome',
          explore p.stateBound (Interpreted.full i policy) limits done = some outcome ∧
          explore p.stateBound graph limits done = some outcome' ∧
          (i.Countable outcome.looked →
            outcome'.result = outcome.result ∧ outcome'.looked = outcome.looked) := by
  have executes := executes_of_either either
  have same := program_of_ofProgram accepted
  subst same
  have analysed : Analysis.ofSystem m.system = .ok (Analysis.ofValid m.system) :=
    Analysis.ofSystem_eq_ok_iff.mpr ⟨memory, Program.system_wellFormed m.inOrder, rfl⟩
  have made : Reducer.ofSystem i.system options
      = .ok (Reducer.ofAnalysis (Analysis.ofValid m.system) options) := by
    unfold Reducer.ofSystem
    rw [executes.system, analysed]
    rfl
  refine ⟨_, made, fun image sized => ?_, fun policy => ?_⟩
  · refine ⟨m.readyNumbers image, ?_, fun holds stats => ?_⟩
    · exact executes.enabled_eq ⟨image, sized⟩
    · exact reduce_base method ⟨image, sized⟩ holds stats
  · refine ⟨_, reduced_eq executes memory policy options, fun limits done => ?_⟩
    have moves := (fires_full executes policy).moves
    obtain ⟨outcome, explored⟩ :=
      moves.exists_explore (Interpreted.functional_full i policy) limits done
    obtain ⟨outcome', ended, alike⟩ := explore_base_alike executes memory policy method explored
    refine ⟨outcome, outcome', explored, ended, fun countable => ?_⟩
    refine alike.resolve_left ?_
    rintro ⟨_, crowded, first⟩
    exact crowded (countable.of_prefix first)

/-- Of two processes about to take their first locks both are kept, and the reduced search finds all
that there is to report. -/
theorem base_keeps_everything_crossedLocks :
    (∃ r, Reducer.ofSystem crossedLocksModel.interpreter.system ⟨.base, false⟩ = .ok r ∧
      ∀ holds, (({ r with stats := .initial } : Reducer).reduce [0, 2] holds).map Prod.fst
        = .ok [true, true]) ∧
      ∃ graph outcome,
        Interpreted.reduced crossedLocksModel.interpreter .strict ⟨.base, false⟩ = .ok graph ∧
        explore crossedLocks.stateBound graph {} (fun _ _ => false) = some outcome ∧
        outcome.result = .ok crossedLocksReport := by
  have accepted : ofProgram crossedLocks = .ok crossedLocksModel := rfl
  have method : (⟨.base, false⟩ : Options).method = .base := rfl
  obtain ⟨r, made, keeps, searches⟩ :=
    base_keeps_everything accepted (by decide +kernel) (.inl rfl) method
  refine ⟨⟨r, made, fun holds => ?_⟩, ?_⟩
  · obtain ⟨enabled, fires, all⟩ := keeps [0, 0, 0, 0] rfl
    have both : crossedLocksModel.interpreter.enabled [0, 0, 0, 0] = .ok [0, 2] := by
      decide +kernel
    rw [fires, Except.ok.injEq] at both
    subst both
    rw [all holds .initial]
    rfl
  · obtain ⟨graph, reduced, alike⟩ := searches .strict
    obtain ⟨outcome, outcome', explored, ended, same⟩ := alike {} (fun _ _ => false)
    have full : (explore crossedLocks.stateBound
        (Interpreted.full crossedLocksModel.interpreter .strict) {} (fun _ _ => false)).map
          Outcome.result = some (.ok crossedLocksReport) := by decide +kernel
    have countable : (explore crossedLocks.stateBound
        (Interpreted.full crossedLocksModel.interpreter .strict) {} (fun _ _ => false)).map
          (fun outcome => decide (crossedLocksModel.interpreter.Countable outcome.looked))
            = some true := by decide +kernel
    rw [explored, Option.map_some, Option.some.injEq] at full countable
    rw [decide_eq_true_iff] at countable
    exact ⟨graph, outcome', reduced, ended, (same countable).1.trans full⟩

end Model

end StateSpace

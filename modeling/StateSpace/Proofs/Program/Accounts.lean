/-
**The statistics of a reduced search of a program and its report.**

* `Model.length_filterMap_reaction` — each enabled command reports one event.
* `Model.balanced_reduced` — so each kept command leads to a successor or to a tolerated fault.
* `Model.explore_accounts` — what the statistics of a search that succeeds are, in terms of its
  report and of the states that it expanded.
-/

import StateSpace.Proofs.Program.Subgraph
import StateSpace.Proofs.Program.Violations
import StateSpace.Proofs.Reduction.Accounts

namespace StateSpace

open Explorable

namespace Model

variable {m : Model}

/-- **Each enabled command reports one event.** -/
theorem length_filterMap_reaction {x : m.State} {ts : List Nat}
    (enabled : ∀ t ∈ ts, m.semantics.enabled x t) :
    (ts.filterMap (m.reaction x.1)).length = ts.length := by
  rw [List.filterMap_length_eq_length]
  intro t fired
  by_cases faulty : x.Faulty t
  · obtain ⟨process, pc, raises⟩ := reaction_of_faulty (enabled t fired) faulty
    rw [raises]
    rfl
  · obtain ⟨firing, leads⟩ := reaction_of_enabled (enabled t fired) faulty
    rw [leads]
    rfl

/-- A description that a reduction accepts fits in memory. -/
theorem fitsMemory_of_reduced {policy : Policy} {options : Options} {graph : Interpreted}
    (built : Interpreted.reduced m.interpreter policy options = .ok graph) :
    m.system.fitsMemory = true := by
  have system : m.interpreter.system = m.system := rfl
  unfold Interpreted.reduced Reducer.ofSystem at built
  rw [system] at built
  cases analysed : Analysis.ofSystem m.system with
  | error failure =>
    rw [analysed] at built
    cases built
  | ok analysis => exact (Analysis.ofSystem_eq_ok_iff.mp analysed).1

/-- **Each kept command leads to a successor or to a tolerated fault.** -/
theorem balanced_reduced {i : Interpreter} (executes : m.Executes i) (policy : Policy)
    (options : Options) :
    (m.reducedGraph i policy options .initial).Balanced
      (Reducer.ofAnalysis (Analysis.ofValid m.system) options) m.IsState := by
  rintro _ expansion ⟨x, rfl⟩ executed
  rw [keptList_eq executes] at executed ⊢
  have executed : i.execute policy x.image (m.keptOf i options x) = .ok expansion := executed
  rw [executes.execute] at executed
  obtain ⟨clean, rfl⟩ := eq_expansion_of_execute executed
  rw [← Interpreter.length_expansion _ clean]
  exact (length_filterMap_reaction fun t fired => enabled_of_mem_kept fired).symm

/-- **The statistics and the report account for each other.** Take a program that is accepted, and a
reduced graph of it that was not asked yet. If a search of it succeeds, under any policy and with
any ceiling and states to stop at, its statistics count the states that were looked at, but for the
one at which the search was told to stop. The kept transitions are those of the report and the
faults that were tolerated, of which there are none under the strict policy. The enabled ones are
those of the expanded states, all told. No more are kept than are enabled, neither in all nor at
most nor at least. -/
theorem explore_accounts {p : Program} {m : Model} (accepted : ofProgram p = .ok m)
    {policy : Policy} {options : Options} {graph : Interpreted}
    (built : Interpreted.reduced m.interpreter policy options = .ok graph) {limits : Limits}
    {done : Nat → Image → Bool} {bound : Nat} {outcome : Outcome Interpreted} {report : Report}
    (explored : explore bound graph limits done = some outcome)
    (succeeded : outcome.result = .ok report) :
    (∀ state ∈ outcome.expanded, state.size = p.imageSize ∧
      m.interpreter.enabled state.bytes = .ok (m.interpreter.enabledList state)) ∧
    ∃ stats, outcome.graph.stats = some stats ∧
      stats.states = (if report.stoppedAt.isSome then report.states - 1 else report.states) ∧
      stats.reduced = report.transitions + (graph.toleratedAlong outcome.expanded).length ∧
      (policy = .strict → stats.reduced = report.transitions) ∧
      stats.enabled
        = (outcome.expanded.map fun state => (m.interpreter.enabledList state).length).sum ∧
      stats.reduced ≤ stats.enabled ∧
      (outcome.expanded ≠ [] → stats.maxReduced ≤ stats.maxEnabled ∧
        ∃ leastReduced leastEnabled, stats.minReduced? = some leastReduced ∧
          stats.minEnabled? = some leastEnabled ∧ leastReduced ≤ leastEnabled) := by
  have executes := m.executes_interpreter
  have memory := fitsMemory_of_reduced built
  obtain rfl := program_of_ofProgram accepted
  obtain rfl := Except.ok.inj ((reduced_eq executes memory policy options).symm.trans built)
  have tame := tame_reduced executes memory policy options
  have moves := (fires_reduced executes memory policy options).moves
  obtain ⟨known, counted, stats, graph, books, reduced⟩ :=
    tame.books_of_explore (balanced_reduced executes policy options)
      (fun _ begins => ⟨_, moves.starts begins⟩) moves.closed explored succeeded
  refine ⟨fun state member => ?_, stats, ?_, ?_, reduced, fun strict => ?_, books.enabled,
    books.reduced, fun expanded => ⟨books.most, _, _, ?_, ?_, books.least⟩⟩
  · obtain ⟨x, rfl⟩ := known state member
    exact ⟨x.2, tame.enabled ⟨x, rfl⟩⟩
  · rw [graph, Interpreted.stats, tame.reducer_withStats]
    rfl
  · rw [books.states]
    by_cases stopped : report.stoppedAt.isSome = true
    · rw [if_pos stopped] at counted ⊢
      omega
    · rw [if_neg stopped] at counted ⊢
      omega
  · have strict : (m.reducedGraph m.interpreter policy options .initial).policy = .strict := strict
    rw [reduced, Interpreted.toleratedAlong_strict strict, List.length_nil, Nat.add_zero]
  · exact if_neg (books.states ▸ mt List.length_eq_zero_iff.mp expanded)
  · exact if_neg (books.states ▸ mt List.length_eq_zero_iff.mp expanded)

/-- The states of a process that takes turns and two that wait, in the order in which a reduced
search that tolerates faults meets them. -/
def lenientStates : List Image :=
  [[0, 0, 0, 0, 0, 0], [1, 0, 0, 0, 0, 0], [0, 0, 1, 0, 0, 0], [1, 1, 0, 0, 0, 0],
    [1, 0, 1, 0, 0, 0], [0, 1, 0, 0, 0, 0], [1, 1, 1, 0, 0, 0], [0, 1, 1, 0, 0, 0]].map
      Image.ofBytes

theorem explore_lenient_takeTurns :
    Interpreted.findings takeTurnsModel.interpreter .lenient ⟨.stubbornSet, false⟩
        takeTurns.stateBound
      = some (.ok { states := 8, transitions := 12 }, lenientStates) := by
  decide +kernel

theorem toleratedAlong_lenientStates :
    ((takeTurnsModel.reducedGraph takeTurnsModel.interpreter .lenient ⟨.stubbornSet, false⟩
      .initial).toleratedAlong lenientStates).length = 2 := by
  decide +kernel

/-- **A search of eight states.** Fourteen of the twenty enabled commands are kept; twelve of them
lead to a state and two fail. -/
theorem explore_accounts_takeTurns :
    ∃ graph outcome report stats, Interpreted.reduced takeTurnsModel.interpreter .lenient
        ⟨.stubbornSet, false⟩ = .ok graph ∧
      explore takeTurns.stateBound graph {} (fun _ _ => false) = some outcome ∧
      outcome.result = .ok report ∧ outcome.graph.stats = some stats ∧
      stats.states = 8 ∧ report.transitions = 12 ∧
      (graph.toleratedAlong outcome.expanded).length = 2 ∧ stats.reduced = 14 ∧
      stats.enabled = 20 ∧ stats.maxReduced ≤ stats.maxEnabled := by
  have accepted : ofProgram takeTurns = .ok takeTurnsModel := rfl
  obtain ⟨graph, outcome, built, explored, found⟩ :=
    Interpreted.findings_eq_some_iff.mp explore_lenient_takeTurns
  obtain ⟨succeeded, looked⟩ := Prod.mk.inj found
  have expanded : outcome.expanded = lenientStates := by
    rw [Outcome.expanded, succeeded]
    exact looked
  obtain ⟨_, stats, remembered, states, reduced, _, enabled, _, extremes⟩ :=
    explore_accounts accepted built explored succeeded
  have same := built.symm.trans
    (reduced_eq takeTurnsModel.executes_interpreter (by cbv) .lenient ⟨.stubbornSet, false⟩)
  have tolerated : (graph.toleratedAlong outcome.expanded).length = 2 := by
    rw [expanded, Except.ok.inj same]
    exact toleratedAlong_lenientStates
  rw [tolerated] at reduced
  rw [expanded] at enabled extremes
  exact ⟨graph, outcome, _, stats, built, explored, succeeded, remembered, states, rfl, tolerated,
    reduced, enabled, (extremes (by decide)).1⟩

end Model

end StateSpace

/-
**A reduced search of a program explores a part of the full graph.**

* `Model.execute_filter` — firing some of the commands gives their part of the expansion.
* `Model.expand_kept` — the expansion of a state in a reduced graph is the part of the full one that
  comes from the kept commands.
* `Model.subgraph_reduced` — so a reduced graph follows some of the edges of the full one.
* `Model.explore_subgraph` — where the full search succeeds, the reduced one does, it looks at no
  other states, and it counts no more.
-/

import StateSpace.Proofs.Program.Totality
import StateSpace.Proofs.Search.Subgraph

namespace StateSpace

open Explorable

namespace Model

variable {m : Model}

/-! ### Firing some of the commands -/

theorem transition?_of_reaction {image : List UInt8} {t : Nat} {event : Event}
    (reacts : m.reaction image t = some event) : event.transition? = some t := by
  rw [reaction, Option.bind_eq_some_iff] at reacts
  obtain ⟨command, _, reacts⟩ := reacts
  rw [Option.ite_none_right_eq_some, Option.some.injEq] at reacts
  rw [← reacts.2, Command.event]
  by_cases faulty : command.faulty m.program image = true
  · rw [if_pos faulty]
    rfl
  · rw [if_neg faulty]
    rfl

/-- What some of the transitions report is their part of the report. -/
theorem filterMap_filter_reaction (image : List UInt8) (keeps : Nat → Bool) (ts : List Nat) :
    (ts.filter keeps).filterMap (m.reaction image)
      = (ts.filterMap (m.reaction image)).filter fun event => event.transition?.any keeps := by
  have same : (fun t => if keeps t then m.reaction image t else none)
      = fun t => (m.reaction image t).filter fun event => event.transition?.any keeps := by
    funext t
    cases reacts : m.reaction image t with
    | none => simp
    | some event =>
      have behind := transition?_of_reaction reacts
      by_cases kept : keeps t = true
      · simp [Option.filter, behind, kept]
      · simp [Option.filter, behind, kept]
  rw [List.filterMap_filter, List.filter_filterMap, same]

variable {x : m.State} {policy : Policy}

/-- **An execution that succeeds** raises nothing that is not tolerated, and is what it reports. -/
theorem eq_expansion_of_execute {ts : List Nat} {expansion : Expansion}
    (executed : m.interpreter.execute policy x.image ts = .ok expansion) :
    (∀ event ∈ ts.filterMap (m.reaction x.1), event.raised? policy = none) ∧
      expansion = m.interpreter.expansion policy (ts.filterMap (m.reaction x.1)) := by
  have reported : m.interpreter.report x.image.bytes ts
      = (ts.filterMap (m.reaction x.1)).map .ok := report_eq x.2 ts
  by_cases clean : ∀ event ∈ ts.filterMap (m.reaction x.1), event.raised? policy = none
  · rw [Interpreter.execute_of_clean reported clean, Except.ok.injEq] at executed
    exact ⟨clean, executed.symm⟩
  · have raised : ∃ event ∈ ts.filterMap (m.reaction x.1), event.raised? policy ≠ none := by
      simpa only [not_forall, exists_prop] using clean
    obtain ⟨fault, failed⟩ := Interpreter.exists_execute_error reported rfl raised
    rw [executed] at failed
    cases failed

/-- **Firing some of the commands gives their part of the expansion**, entries in their order. -/
theorem execute_filter {ts : List Nat} {expansion : Expansion}
    (executed : m.interpreter.execute policy x.image ts = .ok expansion) (keeps : Nat → Bool) :
    m.interpreter.execute policy x.image (ts.filter keeps) = .ok (expansion.only keeps) ∧
      (expansion.only keeps).states.Sublist expansion.states ∧
      (expansion.only keeps).firings.Sublist expansion.firings ∧
      (expansion.only keeps).faults.Sublist expansion.faults := by
  obtain ⟨clean, rfl⟩ := eq_expansion_of_execute executed
  rw [← Interpreter.expansion_filter]
  refine ⟨?_, Interpreter.expansion_sublist _ policy List.filter_sublist⟩
  rw [← filterMap_filter_reaction]
  refine Interpreter.execute_of_clean (report_eq x.2 _) fun event member => ?_
  rw [filterMap_filter_reaction] at member
  exact clean event (List.mem_of_mem_filter member)

/-! ### Reduced graphs -/

theorem isState_of_size {state : Image} (sized : state.size = m.program.imageSize) :
    m.IsState state :=
  ⟨⟨state.bytes, sized⟩, Image.eq_of_bytes_eq rfl⟩

section Reduced

variable {i : Interpreter} (executes : m.Executes i) (memory : m.system.fitsMemory = true)
  (options : Options)

/-- The commands kept in a state. -/
abbrev keptOf (m : Model) (i : Interpreter) (options : Options) (x : m.State) : List Nat :=
  Interpreted.kept (m.readyNumbers x.1) (m.flagsOf i options x)

theorem filter_keptOf (x : m.State) :
    (m.readyNumbers x.1).filter (m.keptOf i options x).contains = m.keptOf i options x :=
  Interpreted.filter_contains_kept _ _ _

include executes in
/-- The statistics of a reduction count the kept commands. -/
theorem count_flags_eq (policy : Policy) (x : m.State) :
    ((Reducer.ofAnalysis (Analysis.ofValid m.system) options).flags (i.enabledList x.image)
      ((m.reducedGraph i policy options .initial).oracle x.image)).count true
        = (m.keptOf i options x).length := by
  rw [executes.enabledList_eq]
  exact (Interpreted.length_kept_flags _ _ _).symm

include executes in
theorem execute_of_expand_full {expansion : Expansion}
    (expanded : ((Interpreted.full i policy).expand x.image).1 = .ok expansion) :
    m.interpreter.execute policy x.image (m.readyNumbers x.1) = .ok expansion := by
  rw [Interpreted.expand_full policy (executes.enabled_eq x), executes.execute] at expanded
  exact expanded

include executes memory

/-- **The kept commands give their part of the full expansion**, as long as the statistics have
room. -/
theorem expand_kept {expansion : Expansion}
    (expanded : ((Interpreted.full i policy).expand x.image).1 = .ok expansion)
    {stats later : Stats}
    (recorded : stats.record (m.keptOf i options x).length (m.readyNumbers x.1).length
      = .ok later) :
    ((m.reducedGraph i policy options .initial).withStats stats).expand x.image
      = (.ok (expansion.only (m.keptOf i options x).contains),
        (m.reducedGraph i policy options .initial).withStats later) := by
  have tame := tame_reduced executes memory policy options
  have executed := (execute_filter (execute_of_expand_full executes expanded)
    (m.keptOf i options x).contains).1
  rw [filter_keptOf, ← executes.execute] at executed
  rw [← count_flags_eq executes options policy, ← executes.enabledList_eq] at recorded
  rw [tame.expand_withStats ⟨x, rfl⟩ recorded, keptList_eq executes]
  exact congrArg (·, _) executed

/-- A new graph has room for a state. -/
theorem expand_kept_fresh {expansion : Expansion}
    (expanded : ((Interpreted.full i policy).expand x.image).1 = .ok expansion) :
    (∃ reducer, (m.reducedGraph i policy options .initial).chosen x.image
        = .ok (m.keptOf i options x, reducer)) ∧
      ((m.reducedGraph i policy options .initial).expand x.image).1
        = .ok (expansion.only (m.keptOf i options x).contains) := by
  have tame := tame_reduced executes memory policy options
  obtain ⟨reducer, chosen⟩ := tame.exists_chosen ⟨x, rfl⟩
  rw [keptList_eq executes] at chosen
  obtain ⟨later, recorded⟩ := tame.exists_record ⟨x, rfl⟩
  have recorded : Stats.initial.record (m.keptOf i options x).length (m.readyNumbers x.1).length
      = .ok later := by
    rw [← count_flags_eq executes options policy, ← executes.enabledList_eq]
    exact recorded
  have kept := expand_kept executes memory options expanded recorded
  rw [tame.withStats_initial] at kept
  exact ⟨⟨reducer, chosen⟩, by rw [kept]⟩

/-- **A reduced graph follows some of the edges of the full one.** -/
theorem subgraph_reduced (policy : Policy) :
    Subgraph (m.reducedGraph i policy options .initial) (Interpreted.full i policy) where
  starts := rfl
  expands {state targets} reachable expands := by
    obtain ⟨x, rfl⟩ := (fires_full executes policy).moves.isState reachable
    have expands : ((Interpreted.full i policy).expand x.image).1.map Expansion.states
        = .ok targets := expands
    cases expanded : ((Interpreted.full i policy).expand x.image).1 with
    | error failure =>
      rw [expanded] at expands
      cases expands
    | ok expansion =>
      rw [expanded] at expands
      cases expands
      obtain ⟨_, kept⟩ := expand_kept_fresh executes memory options expanded
      obtain ⟨_, sublist, _⟩ := execute_filter (execute_of_expand_full executes expanded)
        (m.keptOf i options x).contains
      refine ⟨_, ?_, sublist⟩
      show ((m.reducedGraph i policy options .initial).expand x.image).1.map Expansion.states = _
      rw [kept]
      rfl

/-- **Where the full search succeeds**, the reduced one looks at none but its states; it succeeds
too if these are countable, and it reports no more of them. -/
theorem exists_explore_subgraph (policy : Policy) {bound : Nat} {outcome : Outcome Interpreted}
    {report : Report}
    (explored : explore bound (Interpreted.full i policy) {} (fun _ _ => false) = some outcome)
    (succeeded : outcome.result = .ok report) :
    ∃ outcome', explore bound (m.reducedGraph i policy options .initial) {} (fun _ _ => false)
        = some outcome' ∧ outcome'.looked ⊆ outcome.looked ∧
      (i.Countable outcome.looked → ∃ report', outcome'.result = .ok report' ∧
        report'.states ≤ report.states ∧ report'.transitions ≤ report.transitions) := by
  have fires := fires_full executes policy
  have moves := (fires_reduced executes memory policy options).moves
  have steady := (Interpreted.functional_full i policy).steady
  have subgraph := subgraph_reduced executes memory options policy
  rcases explore_unbounded steady fires.moves.apart explored with
    ⟨failure, failed, _⟩ | ⟨report', ended, exact, fewer, finite, ⟨start, begins⟩, expands⟩
  · rw [succeeded] at failed
    cases failed
  rw [succeeded, Except.ok.injEq] at ended
  subst ended
  obtain ⟨finite', fewer'⟩ := subgraph.finite_reachable expands finite
  have enough : {state | Reachable (m.reducedGraph i policy options .initial) state}.ncard
      ≤ bound := (fewer'.trans (Nat.le_of_eq exact.states.symm)).trans fewer
  obtain ⟨outcome', explored', ⟨nodup, reached⟩, settled⟩ :=
    (tame_reduced executes memory policy options).exists_explore
      (fun _ begins => ⟨_, moves.starts begins⟩) moves.closed moves.apart finite' enough
  have looked : outcome'.looked ⊆ outcome.looked := by
    intro state member
    rw [mem_looked_iff steady fires.moves.apart explored succeeded]
    exact subgraph.reachable expands (reached state member)
  refine ⟨outcome', explored', looked, fun countable => ?_⟩
  rcases settled with ⟨_, crowded⟩ | verdict
  · exact absurd (countable.of_subset nodup looked) crowded
  · obtain ⟨report', succeeded', exact'⟩ := subgraph.exists_exact expands begins verdict
    exact ⟨report', succeeded', subgraph.le_of_exact expands finite exact exact'⟩

end Reduced

/-- **A reduced search explores a part of the full graph.** Take a program that is accepted and
whose analysis fits in memory, and a reduction of either method. If the full search without bounds
succeeds, the reduced one looks at none but its states, it succeeds too if the statistics have room
for these, and it reports no more states or transitions. And in every image with a byte per process
and variable in which the full expansion succeeds, the reduced one is the part of it that comes from
the kept transitions, all entries in their order, whatever the statistics are as long as they have
room. -/
theorem explore_subgraph {p : Program} {m : Model} (accepted : ofProgram p = .ok m)
    (memory : m.system.fitsMemory = true) (policy : Policy) (options : Options) :
    ∃ graph, Interpreted.reduced m.interpreter policy options = .ok graph ∧
      (∀ bound outcome report,
        explore bound (Interpreted.full m.interpreter policy) {} (fun _ _ => false) = some outcome →
        outcome.result = .ok report →
        ∃ outcome', explore bound graph {} (fun _ _ => false) = some outcome' ∧
          outcome'.looked ⊆ outcome.looked ∧
          (m.interpreter.Countable outcome.looked → ∃ report', outcome'.result = .ok report' ∧
            report'.states ≤ report.states ∧ report'.transitions ≤ report.transitions)) ∧
      ∀ (state : Image) (expansion : Expansion), state.size = p.imageSize →
        ((Interpreted.full m.interpreter policy).expand state).1 = .ok expansion →
        ∃ enabled kept, m.interpreter.enabled state.bytes = .ok enabled ∧ kept.Sublist enabled ∧
          (∃ reducer, graph.chosen state = .ok (kept, reducer)) ∧
          (graph.expand state).1 = .ok (expansion.only kept.contains) ∧
          (expansion.only kept.contains).states.Sublist expansion.states ∧
          (expansion.only kept.contains).firings.Sublist expansion.firings ∧
          (expansion.only kept.contains).faults.Sublist expansion.faults ∧
          ∀ stats later, stats.record kept.length enabled.length = .ok later →
            (graph.withStats stats).expand state
              = (.ok (expansion.only kept.contains), graph.withStats later) := by
  have executes := m.executes_interpreter
  obtain rfl := program_of_ofProgram accepted
  refine ⟨_, reduced_eq executes memory policy options, fun bound outcome report explored
    succeeded => exists_explore_subgraph executes memory options policy explored succeeded,
    fun state expansion sized expanded => ?_⟩
  obtain ⟨x, rfl⟩ := isState_of_size sized
  obtain ⟨chosen, fresh⟩ := expand_kept_fresh executes memory options expanded
  have sublists := (execute_filter (execute_of_expand_full executes expanded)
    (m.keptOf m.interpreter options x).contains).2
  refine ⟨_, m.keptOf m.interpreter options x, executes.enabled_eq x, ?_, chosen, fresh,
    sublists.1, sublists.2.1, sublists.2.2, fun stats later recorded => ?_⟩
  · rw [← filter_keptOf]
    exact List.filter_sublist
  · exact expand_kept executes memory options expanded recorded

/-- What a process that fails and one that moves do in the initial state. -/
def failOrMoveExpansion : Expansion where
  states := [.ofBytes [0, 1, 0]]
  firings := [⟨1, 1⟩]
  faults := [⟨⟨.assertion, 0, 0, some 0⟩, "assertion violated: v0 == 0"⟩]

/-- The search reduced by stubborn sets where one process fails and the other one moves. -/
theorem explore_subgraph_failOrMove :
    ∃ graph, Interpreted.reduced failOrMoveModel.interpreter .lenient ⟨.stubbornSet, false⟩
        = .ok graph ∧
      (∃ outcome report, explore 2 graph {} (fun _ _ => false) = some outcome ∧
        outcome.looked ⊆ [.ofBytes [0, 0, 0], .ofBytes [0, 1, 0]] ∧
        outcome.result = .ok report ∧ report.states ≤ 2 ∧ report.transitions ≤ 1) ∧
      ∃ kept : List Nat, kept.Sublist [0, 1] ∧ (graph.expand (.ofBytes [0, 0, 0])).1
        = .ok (failOrMoveExpansion.only kept.contains) := by
  have accepted : ofProgram failOrMove = .ok failOrMoveModel := rfl
  have full : (explore 2 (Interpreted.full failOrMoveModel.interpreter .lenient) {}
      (fun _ _ => false)).map (fun outcome => (outcome.result, outcome.looked))
        = some (.ok { states := 2, transitions := 1, deadlocks := #[.ofBytes [0, 1, 0]] },
            [.ofBytes [0, 0, 0], .ofBytes [0, 1, 0]]) := rfl
  have expanded : ((Interpreted.full failOrMoveModel.interpreter .lenient).expand
      (.ofBytes [0, 0, 0])).1 = .ok failOrMoveExpansion := rfl
  obtain ⟨outcome, explored, found⟩ := Option.map_eq_some_iff.mp full
  obtain ⟨succeeded, looked⟩ := Prod.mk.inj found
  obtain ⟨graph, made, searches, expansions⟩ :=
    explore_subgraph accepted (by cbv) .lenient ⟨.stubbornSet, false⟩
  obtain ⟨outcome', explored', inside, counts⟩ := searches 2 outcome _ explored succeeded
  rw [looked] at inside counts
  obtain ⟨report, succeeded', states, transitions⟩ := counts (by decide)
  obtain ⟨enabled, kept, listed, sublist, _, reduced, _⟩ := expansions _ _ rfl expanded
  have ready : failOrMoveModel.interpreter.enabled [0, 0, 0] = .ok [0, 1] := by decide
  cases ready.symm.trans listed
  exact ⟨graph, made, ⟨outcome', report, explored', inside, succeeded', states, transitions⟩,
    kept, sublist, reduced⟩

end Model

end StateSpace

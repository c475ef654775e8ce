/-
**Reduced searches of a program find its deadlocks.**

Under the strict policy a search of the full graph succeeds only if no command is at fault in its
states.

* `Model.walks_full`, `Model.walks_stubborn` — then the full graph walks the semantics of the model
  without faults, and a graph of stubborn sets its restriction to these.
* `Model.countable_of_exact` — the statistics of the reduction stay below those of the full search,
  so they do not overflow.
* `Model.explore_stubborn_deadlocks` — the reduced search succeeds and reports the same deadlocks.
-/

import StateSpace.Proofs.Program.Faults

namespace StateSpace

open Explorable

namespace Model

variable {m : Model}

/-- **A strict expansion that succeeds** fires no command at fault. -/
theorem Fires.clean {G : Type} [Explorable G] {graph : G} {members : m.State → Nat → Prop}
    (fires : m.Fires graph .strict members) {x : m.State}
    (succeeds : ∃ targets, next graph x.image = .ok targets) {t : Nat}
    (enabled : m.semantics.enabled x t) (member : members x t) : ¬ x.Faulty t := by
  rcases fires.next_cases x with ⟨_, _, error, failed⟩ | ⟨clean, _⟩
  · obtain ⟨targets, expands⟩ := succeeds
    rw [failed] at expands
    cases expands
  · exact clean rfl t enabled member

section Full

variable (starts : m.interpreter.initialImage = .ok (State.zero m).image)
  (succeeds : ∀ state, Reachable (Interpreted.full m.interpreter .strict) state →
    ∃ targets, next (Interpreted.full m.interpreter .strict) state = .ok targets)

include starts succeeds in
theorem walks_full :
    m.faultless.Walks (Interpreted.full m.interpreter .strict) State.image (State.zero m) := by
  have walks := (fires_full m.executes_interpreter .strict).walks starts succeeds
  rwa [Semantics.restrict_true] at walks

include starts succeeds in
/-- **A graph of stubborn sets stays in the full graph**, where nothing fails. -/
theorem walks_stubborn {i : Interpreter} (executes : m.Executes i)
    (memory : m.system.fitsMemory = true) {options : Options}
    (method : options.method = .stubbornSet) :
    (m.faultless.restrict fun x t => (m.stubbornSet i options x).has t = true).Walks
      (m.reducedGraph i .strict options .initial) State.image (State.zero m) := by
  have fires := fires_stubborn executes memory .strict method
  refine fires.walks starts fun state reachable => ?_
  obtain ⟨x, ts, run, rfl⟩ := fires.exists_run reachable
  have inFull := (walks_full starts succeeds).reachable_iff.mpr ⟨x, ts, run.of_restrict, rfl⟩
  rcases fires.next_cases x with ⟨_, ⟨t, enabled, _, faulty⟩, _⟩ | ⟨_, _, expands, _⟩
  · have full := fires_full m.executes_interpreter .strict
    exact absurd faulty (full.clean (succeeds _ inFull) enabled trivial)
  · exact ⟨_, expands⟩

include succeeds in
/-- One edge leaves a state for each enabled command. -/
theorem length_outgoing {x : m.State}
    (reachable : Reachable (Interpreted.full m.interpreter .strict) x.image) :
    (outgoing (Interpreted.full m.interpreter .strict) x.image).length
      = (m.readyNumbers x.1).length := by
  have clean : ∀ t ∈ m.readyNumbers x.1, m.semantics.enabled x t ∧ ¬ x.Faulty t := by
    intro t member
    have enabled := mem_readyNumbers_iff.mp member
    exact ⟨enabled, (fires_full m.executes_interpreter .strict).clean (succeeds _ reachable) enabled
      trivial⟩
  have expands :=
    (next_full m.executes_interpreter .strict x).trans (execute_of_clean .strict clean)
  rw [outgoing_eq expands, List.length_map]

include succeeds in
/-- **The statistics have room** for different states of the full graph, if the counters of its
report do. -/
theorem countable_of_exact {i : Interpreter} (executes : m.Executes i) {report : Report}
    (exact : report.Exact (Interpreted.full m.interpreter .strict))
    (finite : {state | Reachable (Interpreted.full m.interpreter .strict) state}.Finite)
    (words : report.states < UInt64.size ∧ report.transitions < UInt64.size) {states : List Image}
    (nodup : states.Nodup)
    (inside : ∀ state ∈ states, Reachable (Interpreted.full m.interpreter .strict) state) :
    i.Countable states := by
  obtain ⟨few, fewEdges⟩ := exact.length_le finite nodup inside
  have lengths : states.map (fun state => (i.enabledList state).length)
      = states.map fun state =>
        (outgoing (Interpreted.full m.interpreter .strict) state).length := by
    refine List.map_congr_left fun state member => ?_
    obtain ⟨x, rfl⟩ :=
      (fires_full m.executes_interpreter .strict).moves.isState (inside state member)
    rw [executes.enabledList_eq, length_outgoing succeeds (inside _ member)]
  refine ⟨Nat.lt_of_le_of_lt few words.1, ?_⟩
  rw [lengths]
  exact Nat.lt_of_le_of_lt fewEdges words.2

end Full

/-- **Searches of stubborn sets find the deadlocks of a program.** Take a program with a process
that is accepted, and whose full search succeeds under the strict policy. If the matrices of the
analysis fit in memory, as the counters of the full report do in 64 bits, then the search of
stubborn sets, process-local or not and with or without knowledge of the guards, succeeds too, and
it reports the same deadlocks, each once. -/
theorem explore_stubborn_deadlocks {p : Program} {m : Model} (accepted : ofProgram p = .ok m)
    (inhabited : 0 < p.processCount) (memory : m.system.fitsMemory = true) {bound : Nat}
    {outcome : Outcome Interpreted} {report : Report}
    (explored : explore bound (.full m.interpreter .strict) {} (fun _ _ => false) = some outcome)
    (succeeded : outcome.result = .ok report)
    (words : report.states < UInt64.size ∧ report.transitions < UInt64.size) {i : Interpreter}
    (either : i = m.interpreter ∨ i = m.interpreter.bare) {options : Options}
    (method : options.method = .stubbornSet) :
    ∃ graph outcome' report', Interpreted.reduced i .strict options = .ok graph ∧
      explore bound graph {} (fun _ _ => false) = some outcome' ∧
      outcome'.result = .ok report' ∧
      (∀ state, state ∈ report'.deadlocks.toList ↔ state ∈ report.deadlocks.toList) ∧
      report.deadlocks.toList.Nodup ∧ report'.deadlocks.toList.Nodup := by
  have executes := executes_of_either either
  obtain rfl := program_of_ofProgram accepted
  have fires := fires_full m.executes_interpreter .strict
  have steady := (Interpreted.functional_full m.interpreter .strict).steady
  rcases explore_unbounded steady fires.moves.apart explored with
    ⟨failure, failed, _⟩ | ⟨_, ended, exact, fewer, finite, ⟨state, begins⟩, succeeds⟩
  · rw [succeeded] at failed
    cases failed
  rw [succeeded, Except.ok.injEq] at ended
  subst ended
  have starts := initialImage_eq inhabited begins
  have walks := walks_full starts succeeds
  have walks' := walks_stubborn starts succeeds executes memory method
  have moves := (fires_stubborn executes memory .strict method).moves
  have inFull : ∀ state, Reachable (m.reducedGraph i .strict options .initial) state →
      Reachable (Interpreted.full m.interpreter .strict) state := fun _ reachable =>
    walks.reachable_of_reduced walks' reachable
  have enough := (Set.ncard_le_ncard inFull finite).trans (exact.states ▸ fewer)
  obtain ⟨outcome', explored', ⟨nodup, looked⟩, settled⟩ :=
    (tame_reduced executes memory .strict options).exists_explore
      (fun _ begins => ⟨_, moves.starts begins⟩) moves.closed moves.apart (finite.subset inFull)
      enough
  have countable := countable_of_exact succeeds executes exact finite words nodup
    fun state member => inFull state (looked state member)
  obtain ⟨report', succeeded', exact'⟩ := walks'.exists_exact
    (settled.resolve_left fun crowded => crowded.2 countable)
  refine ⟨_, outcome', report', reduced_eq executes memory .strict options, explored', succeeded',
    fun state => ?_, exact.nodup_deadlocks, exact'.nodup_deadlocks⟩
  rw [exact'.mem_deadlocks, exact.mem_deadlocks]
  refine walks.deadlock_iff walks' (stubborn_faultless executes options)
    fun x reachable _ t enabled => ?_
  obtain ⟨u, fired, member⟩ := exists_enabled_member i options enabled.1
  exact ⟨u, ⟨fired, fires.clean (succeeds _ (inFull _ reachable)) fired trivial⟩, member⟩

/-! ### Crossed locks -/

/-- Two processes that take two locks in opposite orders, and never give one back. -/
def crossedLocks : Program where
  processCount := 2
  locationCount := 3
  variableCount := 2
  domain := 2
  commands := #[
    ⟨0, 0, 1, some ⟨0, 0⟩, some ⟨0, 1⟩, none⟩, ⟨0, 1, 2, some ⟨1, 0⟩, some ⟨1, 1⟩, none⟩,
    ⟨1, 0, 1, some ⟨1, 0⟩, some ⟨1, 1⟩, none⟩, ⟨1, 1, 2, some ⟨0, 0⟩, some ⟨0, 1⟩, none⟩]

def crossedLocksModel : Model :=
  ⟨crossedLocks, by decide, by decide⟩

/-- What there is to report of them: each process may take both locks first, or each takes one. -/
def crossedLocksReport : Report where
  states := 6
  transitions := 6
  deadlocks := #[.ofBytes [2, 0, 1, 1], .ofBytes [1, 1, 1, 1], .ofBytes [0, 2, 1, 1]]

theorem explore_stubborn_deadlocks_crossedLocks :
    ∃ graph outcome report, Interpreted.reduced crossedLocksModel.interpreter .strict
        ⟨.stubbornSet, false⟩ = .ok graph ∧
      explore 6 graph {} (fun _ _ => false) = some outcome ∧ outcome.result = .ok report ∧
      (∀ state, state ∈ report.deadlocks.toList ↔ state ∈ crossedLocksReport.deadlocks.toList) ∧
      report.deadlocks.toList.Nodup := by
  have full : (explore 6 (Interpreted.full crossedLocksModel.interpreter .strict) {}
      (fun _ _ => false)).map Outcome.result = some (.ok crossedLocksReport) := by
    decide +kernel
  obtain ⟨outcome, explored, succeeded⟩ := Option.map_eq_some_iff.mp full
  have accepted : ofProgram crossedLocks = .ok crossedLocksModel := rfl
  have method : (⟨.stubbornSet, false⟩ : Options).method = .stubbornSet := rfl
  obtain ⟨graph, outcome', report, reduced, ended, succeeded', same, _, nodup⟩ :=
    explore_stubborn_deadlocks accepted (by decide) (by decide +kernel) explored succeeded
      (by decide) (.inl rfl) method
  exact ⟨graph, outcome', report, reduced, ended, succeeded', same, nodup⟩

end Model

end StateSpace

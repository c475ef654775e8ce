/-
**Strict searches of stubborn sets and the faults of a program.**

A strict search ends at a fault. Where the reduced search ends so, the full one does. The converse
fails: a reduction may follow one process in a circle and never fire the others
(`Model.spinAndFail_missed`). But only in this way.

* `Interpreter.FaultAhead` — firing some transitions one after the other ends at a fault.
* `Model.runtime_full_of_reduced` — the faults found by a reduced search are there.
* `Model.exists_pruned_circle` — a reduced search that misses them all has a circle in its graph, in
  every state of which one and the same transitions are ahead of a fault, and none of them fires.
* `Model.explore_stubborn_faults` — the two together, for the whole searches.
-/

import StateSpace.Proofs.Program.Faults
import StateSpace.Proofs.Reduction.Violations

namespace StateSpace

open Explorable

/-- The search ended at a fault that was not tolerated. -/
def Outcome.Faulted {G : Type} (outcome : Outcome G) : Prop :=
  ∃ error, outcome.result = .error (.error (.runtime error))

/-- **A fault is ahead**: each of some transitions is enabled where the ones before it lead, and the
last one fails. -/
inductive Interpreter.FaultAhead (i : Interpreter) : Image → List Nat → Prop where
  | fails {state : Image} {t : Nat} {error : RuntimeError} (enabled : t ∈ i.enabledList state)
      (failed : i.execute .strict state [t] = .error (.error (.runtime error))) :
      FaultAhead i state [t]
  | moves {state target : Image} {t : Nat} {ts : List Nat} {expansion : Expansion}
      (enabled : t ∈ i.enabledList state)
      (executed : i.execute .strict state [t] = .ok expansion)
      (leads : target ∈ expansion.states) (ahead : FaultAhead i target ts) :
      FaultAhead i state (t :: ts)

namespace Interpreted

/-- A fault is ahead, and none of the transitions that lead to it fires. -/
def PutsOff (g : Interpreted) (ts : List Nat) (state : Image) : Prop :=
  g.interpreter.FaultAhead state ts ∧ ∀ t ∈ ts, t ∉ g.fired state

/-- **An edge from a reachable state in which a fault is put off.** -/
def PrunedEdge (g : Interpreted) (ts : List Nat) (state target : Image) : Prop :=
  Reachable g state ∧ g.PutsOff ts state ∧ Edge g state target

theorem PutsOff.leavesOut {g : Interpreted} {t : Nat} {ts : List Nat} {state : Image}
    (putsOff : g.PutsOff (t :: ts) state) : g.LeavesOut t state := by
  obtain ⟨ahead, outside⟩ := putsOff
  refine ⟨?_, outside t List.mem_cons_self⟩
  cases ahead with
  | fails enabled _ => exact enabled
  | moves enabled _ _ _ => exact enabled

/-- **There is no circle of pruned edges** if a height rises wherever one and the same transition is
left out at both ends of an edge. -/
theorem no_pruned_circle {g : Interpreted} (height : Image → Nat)
    (rises : ∀ state target, Reachable g state → Edge g state target →
      ∀ t, g.LeavesOut t state → g.LeavesOut t target → height state < height target)
    (t : Nat) (ts : List Nat) (state : Image) :
    ¬ Relation.TransGen (g.PrunedEdge (t :: ts)) state state := by
  have climbs : ∀ {first last}, Relation.TransGen (g.PrunedEdge (t :: ts)) first last →
      g.LeavesOut t last → height first < height last := by
    intro first last path
    induction path with
    | single edge =>
      obtain ⟨reachable, putsOff, edge⟩ := edge
      exact rises _ _ reachable edge t putsOff.leavesOut
    | tail _ edge ih =>
      obtain ⟨reachable, putsOff, edge⟩ := edge
      intro leavesOut
      exact (ih putsOff.leavesOut).trans (rises _ _ reachable edge t putsOff.leavesOut leavesOut)
  intro circle
  obtain ⟨_, ⟨_, putsOff, _⟩, _⟩ := Relation.TransGen.head'_iff.mp circle
  exact Nat.lt_irrefl _ (climbs circle putsOff.leavesOut)

end Interpreted

namespace Model

variable {m : Model} {i : Interpreter} {options : Options}

theorem grounded_of_run {x y : m.State} {ts : List Nat} (run : m.semantics.Run x ts y)
    (grounded : x.Grounded) : y.Grounded := by
  induction run with
  | nil x => exact grounded
  | cons _ _ ih => exact ih (grounded.fire _)

/-- **A fault is ahead of a run that ends in a state with a command at fault.** -/
theorem faultAhead_of_run (executes : m.Executes i) {x y : m.State} {ts : List Nat} {t : Nat}
    (run : m.faultless.Run x ts y) (enabled : m.semantics.enabled y t) (faulty : y.Faulty t) :
    i.FaultAhead x.image (ts ++ [t]) := by
  have listed : ∀ {x : m.State} {t}, m.semantics.enabled x t → t ∈ i.enabledList x.image := by
    intro x t enabled
    rw [executes.enabledList_eq]
    exact mem_readyNumbers_iff.mpr enabled
  induction run with
  | nil x =>
    obtain ⟨error, failed⟩ := exists_execute_error (List.mem_singleton.mpr rfl) enabled faulty
    exact .fails (listed enabled) (executes.execute ▸ failed)
  | @cons x _ u _ first _ ih =>
    have clean : ∀ t ∈ [u], ¬ x.Faulty t := List.forall_mem_singleton.mpr first.2
    obtain ⟨expansion, executed, states, _⟩ :=
      exists_execute_of_tolerated (List.forall_mem_singleton.mpr first.1)
        (.inr clean : Policy.strict = .lenient ∨ _)
    refine .moves (listed first.1) (executes.execute ▸ executed) ?_ (ih enabled faulty)
    rw [states, List.filter_eq_self.mpr fun t fired => decide_eq_true (clean t fired)]
    exact List.mem_singleton.mpr rfl

/-- A state is one where a run to a fault is put off, if no command of it is in the stubborn set. -/
theorem putsOff_of_outside (executes : m.Executes i) (memory : m.system.fitsMemory = true)
    (policy : Policy) (method : options.method = .stubbornSet) {x : m.State} {ts : List Nat}
    (ahead : i.FaultAhead x.image ts)
    (outside : ∀ t ∈ ts, ¬ (m.stubbornSet i options x).has t = true) :
    (m.reducedGraph i policy options .initial).PutsOff ts x.image := by
  obtain ⟨reducer, chosen⟩ := (tame_reduced executes memory policy options).exists_chosen ⟨x, rfl⟩
  refine ⟨ahead, fun t fired member => ?_⟩
  rw [Interpreted.fired, chosen, keptList_eq executes, kept_stubborn method] at member
  exact outside t fired (List.mem_filter.mp member).2

section Verdicts

variable (executes : m.Executes i) (memory : m.system.fitsMemory = true)
  (method : options.method = .stubbornSet)
  (starts : m.interpreter.initialImage = .ok (State.zero m).image)
  {result result' : Except Failure Report}
  (verdict : Verdict (Interpreted.full i .strict) result)
  (verdict' : Verdict (m.reducedGraph i .strict options .initial) result')

include executes memory method starts verdict verdict'

/-- **The faults found by a reduced search are there.** -/
theorem runtime_full_of_reduced (faulted : ∃ error, result' = .error (.error (.runtime error))) :
    ∃ error, result = .error (.error (.runtime error)) := by
  obtain ⟨x, ts, t, run, enabled, member, faulty⟩ :=
    ((fires_stubborn executes memory .strict method).runtime_iff starts verdict').mp faulted
  refine ((fires_full executes .strict).runtime_iff starts verdict).mpr ⟨x, ts, t, ?_, enabled,
    trivial, faulty⟩
  rw [Semantics.restrict_true]
  exact run.of_restrict

/-- **A reduced search that misses the faults goes round in a circle.** -/
theorem exists_pruned_circle (faulted : ∃ error, result = .error (.error (.runtime error)))
    (missed : ¬ ∃ error, result' = .error (.error (.runtime error))) :
    ∃ t ts state, Relation.TransGen
      ((m.reducedGraph i .strict options .initial).PrunedEdge (t :: ts)) state state := by
  have fires := fires_stubborn executes memory .strict method
  have clean : ∀ (x : m.State) ts, (m.faultless.restrict
      fun x t => (m.stubbornSet i options x).has t = true).Run (State.zero m) ts x →
      ∀ t, m.semantics.enabled x t → (m.stubbornSet i options x).has t = true → ¬ x.Faulty t :=
    fun x ts run t enabled member faulty => missed
      ((fires.runtime_iff starts verdict').mpr ⟨x, ts, t, run, enabled, member, faulty⟩)
  -- nothing fails in the reduced graph, so it walks its restriction of the semantics
  have walks : (m.faultless.restrict fun x t => (m.stubbornSet i options x).has t = true).Walks
      (m.reducedGraph i .strict options .initial) State.image (State.zero m) := by
    refine fires.walks starts fun state reachable => ?_
    obtain ⟨x, ts, run, rfl⟩ := fires.exists_run reachable
    rcases fires.next_cases x with ⟨_, ⟨t, enabled, member, faulty⟩, _⟩ | ⟨_, _, expands, _⟩
    · exact absurd faulty (clean x ts run t enabled member)
    · exact ⟨_, expands⟩
  obtain ⟨x, ts, t, run, enabled, _, faulty⟩ :=
    ((fires_full executes .strict).runtime_iff starts verdict).mp faulted
  rw [Semantics.restrict_true] at run
  have ahead : m.semantics.ViolationAhead (fun x t => ¬ x.Faulty t) (State.zero m) ts t :=
    ⟨x, run, enabled, fun isClean => isClean faulty⟩
  have finite : {x | ∃ us, (m.faultless.restrict
      fun x t => (m.stubbornSet i options x).has t = true).Run (State.zero m) us x}.Finite :=
    (State.finite_grounded m).1.subset fun x ⟨us, run⟩ =>
      grounded_of_run run.of_restrict.of_restrict fun _ _ => rfl
  obtain ⟨ts, x, circle⟩ := m.conforms.exists_pruned_cycle (Program.system_wellFormed m.inOrder)
    m.local_clean (closed_stubbornSet executes options)
    (fun x t enabled => exists_enabled_member i options enabled) finite clean ahead
  obtain ⟨head, rest, putOff⟩ : ∃ head rest, ts ++ [t] = head :: rest :=
    List.exists_cons_of_ne_nil (List.concat_ne_nil _ _)
  refine ⟨head, rest, x.image, circle.lift State.image ?_⟩
  rintro before after ⟨⟨us, run⟩, ⟨y, run', last, violates⟩, outside, u, fired, member, rfl⟩
  have reachable := walks.reachable_iff.mpr ⟨before, us, run, rfl⟩
  obtain ⟨listed, expands, same⟩ := walks.expands reachable
  have fault := faultAhead_of_run executes run' last (not_not.mp violates)
  refine ⟨reachable, ?_, _, expands, List.mem_map.mpr ⟨u, (same u).mpr ⟨⟨fired, ?_⟩, member⟩, rfl⟩⟩
  · rw [← putOff]
    exact putsOff_of_outside executes memory .strict method fault outside
  · exact clean before us run u fired member

end Verdicts

/-- **Strict searches of stubborn sets and faults.** Take a program that is accepted and whose
analysis fits in memory, and an interpreter with or without knowledge of the guards. Both the full
search and the one of stubborn sets, process-local or not, end. If the reduced search ends at a
fault, so does the full one. Conversely, if the full search ends at a fault and the statistics have
room for the states of the reduced one, then this ends at a fault, too, or there is a circle in its
graph in every state of which it puts off one and the same run to a fault: the first command is
enabled all along, and neither this nor one of the others is fired. -/
theorem explore_stubborn_faults {p : Program} {m : Model} (accepted : ofProgram p = .ok m)
    (memory : m.system.fitsMemory = true) {i : Interpreter}
    (either : i = m.interpreter ∨ i = m.interpreter.bare) {options : Options}
    (method : options.method = .stubbornSet) :
    ∃ graph outcome outcome', Interpreted.reduced i .strict options = .ok graph ∧
      explore p.stateBound (Interpreted.full i .strict) {} (fun _ _ => false) = some outcome ∧
      explore p.stateBound graph {} (fun _ _ => false) = some outcome' ∧
      (outcome'.Faulted → outcome.Faulted) ∧
      (i.Countable outcome'.looked → outcome.Faulted →
        outcome'.Faulted ∨
          ∃ t ts state, Relation.TransGen (graph.PrunedEdge (t :: ts)) state state) := by
  have executes := executes_of_either either
  have same := program_of_ofProgram accepted
  subst same
  have moves := (fires_full executes .strict).moves
  obtain ⟨outcome, explored⟩ :=
    moves.exists_explore (Interpreted.functional_full i .strict) {} fun _ _ => false
  have verdict := verdict_of_explore (Interpreted.functional_full i .strict) moves.apart explored
  obtain ⟨outcome', ended, settled⟩ := exists_explore_reduced executes memory .strict options
  refine ⟨_, outcome, outcome', reduced_eq executes memory .strict options, explored, ended, ?_⟩
  have judged : outcome'.Faulted ∨ i.Countable outcome'.looked →
      Verdict (m.reducedGraph i .strict options .initial) outcome'.result := by
    rintro (⟨error, runtime⟩ | countable)
    · refine settled.resolve_left fun crowded => ?_
      rw [runtime] at crowded
      cases crowded.1
    · exact settled.resolve_left fun crowded => crowded.2 countable
  cases begins : m.interpreter.initialImage with
  | error failure =>
    -- without a state to start from both searches end in the same way
    have full := verdict.eq_of_noStart (executes.initialImage.trans begins)
    have alike : Verdict (m.reducedGraph i .strict options .initial) outcome'.result →
        (outcome'.Faulted ↔ outcome.Faulted) := by
      intro verdict'
      unfold Outcome.Faulted
      rw [full, verdict'.eq_of_noStart (executes.initialImage.trans begins)]
    refine ⟨fun faulted => (alike (judged (.inl faulted))).mp faulted, fun countable faulted => ?_⟩
    exact .inl ((alike (judged (.inr countable))).mpr faulted)
  | ok state =>
    have starts : m.interpreter.initialImage = .ok (State.zero m).image := by
      rw [begins, eq_zero_of_initialImage begins]
    refine ⟨fun faulted => ?_, fun countable faulted => ?_⟩
    · exact runtime_full_of_reduced executes memory method starts verdict (judged (.inl faulted))
        faulted
    · by_cases found : outcome'.Faulted
      · exact .inl found
      · exact .inr (exists_pruned_circle executes memory method starts verdict
          (judged (.inr countable)) faulted found)

/-! ### A process that spins -/

/-- A process that stays where it is, for ever, and another one whose only step is a fault. -/
def spinAndFail : Program where
  processCount := 2
  locationCount := 2
  variableCount := 1
  domain := 2
  commands := #[⟨0, 0, 0, none, none, none⟩, ⟨1, 0, 1, none, none, some ⟨0, 0⟩⟩]

def spinAndFailModel : Model :=
  ⟨spinAndFail, by decide, by decide⟩

def spinAndFailError : RuntimeError :=
  ⟨⟨.assertion, 1, 0, some 1⟩, "assertion violated: v0 == 0"⟩

theorem explore_full_spinAndFail :
    (explore spinAndFail.stateBound (Interpreted.full spinAndFailModel.interpreter .strict) {}
      (fun _ _ => false)).map Outcome.result
        = some (.error (.error (.runtime spinAndFailError))) :=
  rfl

theorem explore_reduced_spinAndFail (processLocal : Bool) :
    Interpreted.findings spinAndFailModel.interpreter .strict ⟨.stubbornSet, processLocal⟩
        spinAndFail.stateBound
      = some (.ok { states := 1, transitions := 1 }, [.ofBytes [0, 0, 0]]) := by
  revert processLocal
  decide +kernel

/-- **A fault that is missed.** The full search ends at the fault. The least enabled command is the
one that spins, and nothing interferes with it, so the reduced search fires nothing else. -/
theorem spinAndFail_missed :
    ofProgram spinAndFail = .ok spinAndFailModel ∧
      (∃ outcome, explore spinAndFail.stateBound
        (Interpreted.full spinAndFailModel.interpreter .strict) {} (fun _ _ => false)
          = some outcome ∧ outcome.Faulted) ∧
      ∀ processLocal, ∃ graph outcome, Interpreted.reduced spinAndFailModel.interpreter .strict
          ⟨.stubbornSet, processLocal⟩ = .ok graph ∧
        explore spinAndFail.stateBound graph {} (fun _ _ => false) = some outcome ∧
        ¬ outcome.Faulted := by
  refine ⟨rfl, ?_, fun processLocal => ?_⟩
  · obtain ⟨outcome, explored, failed⟩ := Option.map_eq_some_iff.mp explore_full_spinAndFail
    exact ⟨outcome, explored, _, failed⟩
  · obtain ⟨graph, outcome, reduced, explored, found⟩ :=
      Interpreted.findings_eq_some_iff.mp (explore_reduced_spinAndFail processLocal)
    refine ⟨graph, outcome, reduced, explored, ?_⟩
    rintro ⟨error, faulted⟩
    rw [(Prod.mk.inj found).1] at faulted
    cases faulted

/-! ### A process that takes turns -/

/-- A process resets one flag and the other, in turn. Two more wait for one of them each, and the
first of these fails after that. -/
def takeTurns : Program where
  processCount := 3
  locationCount := 3
  variableCount := 3
  domain := 2
  commands := #[⟨0, 0, 1, none, some ⟨0, 0⟩, none⟩, ⟨0, 1, 0, none, some ⟨1, 0⟩, none⟩,
    ⟨1, 0, 1, some ⟨1, 0⟩, none, none⟩, ⟨1, 1, 2, none, none, some ⟨2, 0⟩⟩,
    ⟨2, 0, 1, some ⟨0, 0⟩, none, none⟩]

def takeTurnsModel : Model :=
  ⟨takeTurns, by decide, by decide⟩

def takeTurnsGraph : Interpreted :=
  takeTurnsModel.reducedGraph takeTurnsModel.interpreter .strict ⟨.stubbornSet, false⟩ .initial

/-- The states that the reduced search gets to. -/
def takeTurnsStates : List Image :=
  [[0, 0, 0, 0, 0, 0], [1, 0, 0, 0, 0, 0], [0, 0, 1, 0, 0, 0], [1, 1, 0, 0, 0, 0],
    [1, 0, 1, 0, 0, 0], [1, 1, 1, 0, 0, 0]].map Image.ofBytes

/-- How far the waiting processes are. -/
def takeTurnsHeight (state : Image) : Nat :=
  ((state.bytes.drop 1).map UInt8.toNat).sum

set_option maxRecDepth 4000 in
theorem takeTurnsGraph_edges :
    ∀ state ∈ takeTurnsStates, ∀ target ∈ outgoing takeTurnsGraph state,
      target ∈ takeTurnsStates ∧
        ∀ t ∈ takeTurnsModel.interpreter.enabledList state, takeTurnsGraph.LeavesOut t state →
          takeTurnsGraph.LeavesOut t target → takeTurnsHeight state < takeTurnsHeight target := by
  decide +kernel

theorem takeTurnsGraph_leavesOut :
    takeTurnsGraph.LeavesOut 2 (.ofBytes [0, 0, 0, 0, 0, 0]) ∧
      takeTurnsGraph.LeavesOut 4 (.ofBytes [1, 0, 0, 0, 0, 0]) := by
  decide +kernel

theorem reachable_takeTurnsGraph {state : Image} (reachable : Reachable takeTurnsGraph state) :
    state ∈ takeTurnsStates := by
  have starts : Explorable.initial takeTurnsGraph = .ok (.ofBytes [0, 0, 0, 0, 0, 0]) := rfl
  exact reachable.mem_of_closed starts (by decide)
    fun state known target member => (takeTurnsGraph_edges state known target member).1

/-- **No run to a fault is put off along a circle.** The reduced search can go round, but it leaves
out another command at each turn. -/
theorem no_circle_takeTurnsGraph (t : Nat) (ts : List Nat) (state : Image) :
    ¬ Relation.TransGen (takeTurnsGraph.PrunedEdge (t :: ts)) state state := by
  refine Interpreted.no_pruned_circle takeTurnsHeight (fun state target reachable edge t before =>
    ?_) t ts state
  obtain ⟨targets, expands, member⟩ := edge
  have known := reachable_takeTurnsGraph reachable
  exact (takeTurnsGraph_edges state known target (outgoing_eq expands ▸ member)).2 t before.1 before

theorem explore_full_takeTurns :
    (explore takeTurns.stateBound (Interpreted.full takeTurnsModel.interpreter .strict) {}
      (fun _ _ => false)).map Outcome.result
        = some (.error (.error (.runtime
          ⟨⟨.assertion, 1, 1, some 3⟩, "assertion violated: v2 == 0"⟩))) :=
  rfl

theorem looked_takeTurnsGraph :
    (explore takeTurns.stateBound takeTurnsGraph {} (fun _ _ => false)).map Outcome.looked
      = some (takeTurnsStates.take 4) := by
  decide +kernel

/-- In the one program the reduced search has the circle; in the other one it has none, and finds
the fault, although it leaves out commands. -/
theorem explore_stubborn_faults_cases :
    (∃ graph t ts state, Interpreted.reduced spinAndFailModel.interpreter .strict
        ⟨.stubbornSet, false⟩ = .ok graph ∧
      Relation.TransGen (graph.PrunedEdge (t :: ts)) state state) ∧
    ∃ outcome, Interpreted.reduced takeTurnsModel.interpreter .strict ⟨.stubbornSet, false⟩
        = .ok takeTurnsGraph ∧
      takeTurnsGraph.LeavesOut 2 (.ofBytes [0, 0, 0, 0, 0, 0]) ∧
      takeTurnsGraph.LeavesOut 4 (.ofBytes [1, 0, 0, 0, 0, 0]) ∧
      explore takeTurns.stateBound takeTurnsGraph {} (fun _ _ => false) = some outcome ∧
      outcome.Faulted := by
  have method : (⟨.stubbornSet, false⟩ : Options).method = .stubbornSet := rfl
  constructor
  · have accepted : ofProgram spinAndFail = .ok spinAndFailModel := rfl
    obtain ⟨graph, outcome, outcome', reduced, explored, ended, _, circle⟩ :=
      explore_stubborn_faults accepted (by cbv) (.inl rfl) method
    have full := explore_full_spinAndFail
    have missed := explore_reduced_spinAndFail false
    rw [explored, Option.map_some, Option.some.injEq] at full
    rw [Interpreted.findings_eq_some_iff.mpr ⟨graph, outcome', reduced, ended, rfl⟩,
      Option.some.injEq, Prod.mk.injEq] at missed
    have countable : spinAndFailModel.interpreter.Countable outcome'.looked := by
      rw [missed.2]
      decide
    rcases circle countable ⟨_, full⟩ with ⟨error, faulted⟩ | ⟨t, ts, state, around⟩
    · rw [missed.1] at faulted
      cases faulted
    · exact ⟨graph, t, ts, state, reduced, around⟩
  · have accepted : ofProgram takeTurns = .ok takeTurnsModel := rfl
    have memory : takeTurnsModel.system.fitsMemory = true := by cbv
    have reduced' := reduced_eq takeTurnsModel.executes_interpreter memory .strict
      ⟨.stubbornSet, false⟩
    obtain ⟨graph, outcome, outcome', reduced, explored, ended, _, circle⟩ :=
      explore_stubborn_faults accepted memory (.inl rfl) method
    rw [reduced', Except.ok.injEq] at reduced
    have same : takeTurnsGraph = graph := reduced
    subst same
    have full := explore_full_takeTurns
    rw [explored, Option.map_some, Option.some.injEq] at full
    have looked := looked_takeTurnsGraph
    rw [ended, Option.map_some, Option.some.injEq] at looked
    have countable : takeTurnsModel.interpreter.Countable outcome'.looked := by
      rw [looked]
      decide
    refine ⟨outcome', reduced', takeTurnsGraph_leavesOut.1, takeTurnsGraph_leavesOut.2, ended, ?_⟩
    refine (circle countable ⟨_, full⟩).resolve_right ?_
    rintro ⟨t, ts, state, around⟩
    exact no_circle_takeTurnsGraph t ts state around

end Model

end StateSpace

/-
**Searches under the two policies.**

The policy decides what becomes of a fault, and nothing else: which commands fire in a state and
what the statistics record of it is the same under both. So a strict and a lenient search take the
same path as long as no command that fires is at fault.

* `Interpreted.chosen_withPolicy` — the choice does not depend on the policy.
* `Model.graphOf`, `Model.choiceOf` — the graph of a program, reduced or not, and what fires in it.
* `Model.Chooses` — a graph that makes its choice whatever its statistics are, or breaks off.
* `Model.Chooses.explore_policy` — a search that expands no state with a fault takes the same path
  under any other policy.
* `Model.Chooses.clean_of_strict` — a strict search that succeeds is one.
* `Model.explore_policies` — so the strict search succeeds exactly if the lenient one does and meets
  no fault, and then the two find the same.
-/

import StateSpace.Proofs.Program.Subgraph
import StateSpace.Proofs.Program.Violations
import StateSpace.Proofs.Search.Transfer

namespace StateSpace

open Explorable

/-! ### The policy of a graph -/

namespace Interpreted

/-- The graph under another policy. -/
def withPolicy (g : Interpreted) (policy : Policy) : Interpreted :=
  { g with policy := policy }

theorem requireGuards_withPolicy (g : Interpreted) (policy : Policy) (state : Image)
    (guards : List Nat) :
    (g.withPolicy policy).requireGuards state guards = g.requireGuards state guards := by
  induction guards with
  | nil => rfl
  | cons guard rest ih =>
    rw [requireGuards, requireGuards, ih]
    rfl

/-- **Which transitions fire does not depend on the policy.** -/
theorem chosen_withPolicy (g : Interpreted) (policy : Policy) (state : Image) :
    (g.withPolicy policy).chosen state = g.chosen state := by
  have oracle : (g.withPolicy policy).oracle state = g.oracle state := rfl
  unfold chosen
  simp only [requireGuards_withPolicy, oracle]
  rfl

/-- A graph keeps its interpreter. -/
theorem accepting_after (g : Interpreted) (asked : List Image) (state : Image) :
    accepting (after g asked) state = g.interpreter.accepting state.bytes := by
  induction asked generalizing g with
  | nil => rfl
  | cons first rest ih =>
    have kept : (g.expand first).2.interpreter = g.interpreter := by
      unfold expand
      split <;> rfl
    show accepting (after (g.expand first).2 rest) state = _
    rw [ih, kept]

/-- **No transition that fires in a state is at fault.** -/
def FaultFree (g : Interpreted) (p : Program) (state : Image) : Prop :=
  ∃ kept reducer, g.chosen state = .ok (kept, reducer) ∧
    ∀ t ∈ kept, ∀ command, p.commands[t]? = some command → command.faulty p state.bytes = false

end Interpreted

namespace Model

variable {m : Model}

/-! ### What fires in a graph -/

/-- The graph of a model, reduced or not. -/
def graphOf (m : Model) (policy : Policy) : Option Options → Interpreted
  | none => .full m.interpreter policy
  | some options => m.reducedGraph m.interpreter policy options .initial

/-- The commands that fire in a state of it. -/
def choiceOf (m : Model) (reduction : Option Options) (x : m.State) : List Nat :=
  match reduction with
  | none => m.readyNumbers x.1
  | some options => m.keptOf m.interpreter options x

/-- **A graph that makes a choice of the enabled commands**, whatever its statistics are, unless
they break it off. -/
structure Chooses (m : Model) (g : Interpreted) (choice : m.State → List Nat) : Prop where
  executes : m.Executes g.interpreter
  enabled : ∀ x, ∀ t ∈ choice x, m.semantics.enabled x t
  fresh : ∃ stats, g = g.withStats stats
  answers : ∀ x, ∃ reducer, g.chosen x.image = .ok (choice x, reducer)
  chosen : ∀ x stats,
    (∃ later, (g.withStats stats).chosen x.image = .ok (choice x, (g.withStats later).reducer)) ∨
      ∃ failure, (g.withStats stats).chosen x.image = .error failure

namespace Chooses

variable {g : Interpreted} {choice : m.State → List Nat}

/-- **All that an expansion can do**, under any policy: the choice fires, or it breaks off and
nothing is remembered of it. -/
theorem expand_cases (chooses : m.Chooses g choice) (x : m.State) (stats : Stats) :
    (∃ later, ∀ policy, ((g.withStats stats).withPolicy policy).expand x.image
      = (m.interpreter.execute policy x.image (choice x), (g.withStats later).withPolicy policy)) ∨
    ∃ failure, ∀ policy, ((g.withStats stats).withPolicy policy).expand x.image
      = (.error failure, (g.withStats stats).withPolicy policy) := by
  rcases chooses.chosen x stats with ⟨later, chosen⟩ | ⟨failure, chosen⟩
  · refine .inl ⟨later, fun policy => ?_⟩
    rw [Interpreted.expand, Interpreted.chosen_withPolicy, chosen, ← chooses.executes.execute]
    rfl
  · refine .inr ⟨failure, fun policy => ?_⟩
    rw [Interpreted.expand, Interpreted.chosen_withPolicy, chosen]

/-- The same graph under two policies. -/
def Alike (g : Interpreted) (policy other : Policy) (first second : Interpreted) : Prop :=
  ∃ stats, first = (g.withStats stats).withPolicy policy ∧
    second = (g.withStats stats).withPolicy other

/-- **Where no command that fires is at fault, the policies agree.** -/
theorem agree_of_clean (chooses : m.Chooses g choice) {policy other : Policy}
    {first second : Interpreted} (alike : Alike g policy other first second) {x : m.State}
    (clean : ∀ t ∈ choice x, ¬ x.Faulty t) :
    next first x.image = next second x.image ∧
      Alike g policy other (successors first x.image).2 (successors second x.image).2 := by
  obtain ⟨stats, rfl, rfl⟩ := alike
  have fires : ∀ t ∈ choice x, m.semantics.enabled x t ∧ ¬ x.Faulty t :=
    fun t fired => ⟨chooses.enabled x t fired, clean t fired⟩
  show (Interpreted.expand _ x.image).1.map Expansion.states
      = (Interpreted.expand _ x.image).1.map Expansion.states ∧
    Alike g policy other (Interpreted.expand _ x.image).2 (Interpreted.expand _ x.image).2
  rcases chooses.expand_cases x stats with ⟨later, expanded⟩ | ⟨failure, expanded⟩
  · rw [expanded, expanded, execute_of_clean policy fires, execute_of_clean other fires]
    exact ⟨rfl, later, rfl, rfl⟩
  · rw [expanded, expanded]
    exact ⟨rfl, stats, rfl, rfl⟩

/-- **A search that meets no fault takes the same path under any policy.** -/
theorem explore_policy (chooses : m.Chooses g choice) {policy other : Policy} {limits : Limits}
    {done : Nat → Image → Bool} {bound : Nat} {outcome : Outcome Interpreted}
    (explored : explore bound (g.withPolicy policy) limits done = some outcome)
    (clean : ∀ state ∈ outcome.expanded,
      ∃ x : m.State, state = x.image ∧ ∀ t ∈ choice x, ¬ x.Faulty t) :
    ∃ outcome', explore bound (g.withPolicy other) limits done = some outcome' ∧
      outcome.SamePath (Alike g policy other) outcome' := by
  have begins : Alike g policy other (g.withPolicy policy) (g.withPolicy other) := by
    obtain ⟨stats, fresh⟩ := chooses.fresh
    exact ⟨stats, congrArg (·.withPolicy policy) fresh, congrArg (·.withPolicy other) fresh⟩
  refine explore_transfer (Alike g policy other) begins rfl explored
    fun {_ _ state} alike member => ?_
  obtain ⟨x, rfl, clean⟩ := clean state member
  exact chooses.agree_of_clean alike clean

/-- What a graph remembers of some states are its statistics. -/
theorem exists_after (chooses : m.Chooses g choice) (policy : Policy) {asked : List Image}
    (known : ∀ state ∈ asked, m.IsState state) (stats : Stats) :
    ∃ later, after ((g.withStats stats).withPolicy policy) asked
      = (g.withStats later).withPolicy policy := by
  induction asked generalizing stats with
  | nil => exact ⟨stats, rfl⟩
  | cons state rest ih =>
    obtain ⟨x, rfl⟩ := known state List.mem_cons_self
    have others := fun other member => known other (List.mem_cons_of_mem _ member)
    show ∃ later, after (Interpreted.expand _ x.image).2 rest = _
    rcases chooses.expand_cases x stats with ⟨later, expanded⟩ | ⟨failure, expanded⟩
    · rw [expanded]
      exact ih others later
    · rw [expanded]
      exact ih others stats

/-- **A strict search that succeeds meets no fault.** -/
theorem clean_of_strict (chooses : m.Chooses g choice) {limits : Limits}
    {done : Nat → Image → Bool} {bound : Nat} {outcome : Outcome Interpreted}
    (explored : explore bound (g.withPolicy .strict) limits done = some outcome)
    (known : ∀ state ∈ outcome.expanded, m.IsState state) {report : Report}
    (succeeded : outcome.result = .ok report) :
    ∀ state ∈ outcome.expanded, ∃ x : m.State, state = x.image ∧ ∀ t ∈ choice x, ¬ x.Faulty t := by
  intro state member
  obtain ⟨x, rfl⟩ := known state member
  refine ⟨x, rfl, fun t fired => ?_⟩
  obtain ⟨before, rest, split⟩ := List.append_of_mem member
  have asked : before ++ [x.image] <+: outcome.expanded := ⟨rest, by rw [split]; simp⟩
  obtain ⟨targets, answered⟩ := (replays_of_explore explored succeeded).1 before x.image asked
  obtain ⟨stats, fresh⟩ := chooses.fresh
  obtain ⟨later, handed⟩ := chooses.exists_after .strict
    (fun other earlier => known other (split ▸ List.mem_append_left _ earlier)) stats
  rw [← fresh] at handed
  rw [handed] at answered
  have answered : (Interpreted.expand _ x.image).1.map Expansion.states = .ok targets := answered
  rcases chooses.expand_cases x later with ⟨_, expanded⟩ | ⟨failure, expanded⟩
  · rw [expanded] at answered
    cases executed : m.interpreter.execute .strict x.image (choice x) with
    | error failure =>
      rw [executed] at answered
      cases answered
    | ok expansion => exact not_faulty_of_execute executed fired (chooses.enabled x t fired)
  · rw [expanded] at answered
    cases answered

/-- **On the same path the reports and the statistics are the same**: no state accepts. -/
theorem eq_of_samePath (chooses : m.Chooses g choice) {policy other : Policy} {limits : Limits}
    {done : Nat → Image → Bool} {bound : Nat} {outcome outcome' : Outcome Interpreted}
    (explored : explore bound (g.withPolicy policy) limits done = some outcome)
    (explored' : explore bound (g.withPolicy other) limits done = some outcome')
    (same : outcome.SamePath (Alike g policy other) outcome') {report : Report}
    (succeeded : outcome.result = .ok report) :
    outcome'.result = .ok report ∧ outcome'.graph.stats = outcome.graph.stats := by
  have never : ∀ policy asked state,
      accepting (after (g.withPolicy policy) asked) state = false := by
    intro policy asked state
    rw [Interpreted.accepting_after]
    exact chooses.executes.accepting state.bytes
  obtain ⟨report', succeeded', alike⟩ := same.exists_ok succeeded
  have none := (replays_of_explore explored succeeded).2 (never policy)
  have none' := (replays_of_explore explored' succeeded').2 (never other)
  obtain ⟨stats, first, second⟩ := same.graph
  refine ⟨?_, by rw [first, second]; rfl⟩
  rw [succeeded', Report.eq_of_unmarked alike (none'.trans none.symm)]

theorem faultFree_iff (chooses : m.Chooses g choice) (x : m.State) :
    g.FaultFree m.program x.image ↔ ∀ t ∈ choice x, ¬ x.Faulty t := by
  obtain ⟨reducer, chosen⟩ := chooses.answers x
  constructor
  · rintro ⟨kept, reducer', chosen', clean⟩ t fired ⟨command, used, faulty⟩
    rw [chosen, Except.ok.injEq, Prod.mk.injEq] at chosen'
    have fine : command.faulty m.program x.1 = false :=
      clean t (chosen'.1 ▸ fired) command used
    rw [faulty] at fine
    cases fine
  · intro clean
    refine ⟨_, _, chosen, fun t fired command used => ?_⟩
    rw [← Bool.not_eq_true]
    exact fun faulty => clean t fired ⟨command, used, faulty⟩

end Chooses

/-! ### The graphs of a program -/

theorem chooses_full (m : Model) (policy : Policy) :
    m.Chooses (.full m.interpreter policy) fun x => m.readyNumbers x.1 where
  executes := m.executes_interpreter
  enabled _ _ member := mem_readyNumbers_iff.mp member
  fresh := ⟨.initial, rfl⟩
  answers x := ⟨none, Interpreted.chosen_full policy (m.executes_interpreter.enabled_eq x)⟩
  chosen x stats :=
    .inl ⟨stats, Interpreted.chosen_full policy (m.executes_interpreter.enabled_eq x)⟩

theorem chooses_reduced (memory : m.system.fitsMemory = true) (policy : Policy)
    (options : Options) :
    m.Chooses (m.reducedGraph m.interpreter policy options .initial)
      (m.keptOf m.interpreter options) where
  executes := m.executes_interpreter
  enabled _ _ member := enabled_of_mem_kept member
  fresh := ⟨.initial, rfl⟩
  answers x := by
    obtain ⟨reducer, chosen⟩ :=
      (tame_reduced m.executes_interpreter memory policy options).exists_chosen ⟨x, rfl⟩
    rw [keptList_eq m.executes_interpreter] at chosen
    exact ⟨reducer, chosen⟩
  chosen x stats := by
    have tame := tame_reduced m.executes_interpreter memory policy options
    rcases stats.record_cases _ _ with ⟨later, recorded, _⟩ | ⟨full, _⟩
    · refine .inl ⟨later, ?_⟩
      rw [tame.chosen_withStats ⟨x, rfl⟩ recorded, keptList_eq m.executes_interpreter,
        tame.reducer_withStats]
    · exact .inr ⟨_, tame.chosen_of_overflow ⟨x, rfl⟩ full⟩

theorem chooses_graphOf {reduction : Option Options}
    (memory : reduction ≠ none → m.system.fitsMemory = true) (policy : Policy) :
    m.Chooses (m.graphOf policy reduction) (m.choiceOf reduction) := by
  cases reduction with
  | none => exact m.chooses_full policy
  | some options => exact chooses_reduced (memory (Option.some_ne_none options)) policy options

theorem build_eq {reduction : Option Options}
    (memory : reduction ≠ none → m.system.fitsMemory = true) (policy : Policy) :
    Interpreted.build m.interpreter policy reduction = .ok (m.graphOf policy reduction) := by
  cases reduction with
  | none => rfl
  | some options =>
    exact reduced_eq m.executes_interpreter (memory (Option.some_ne_none options)) policy options

theorem graphOf_withPolicy (policy other : Policy) (reduction : Option Options) :
    (m.graphOf policy reduction).withPolicy other = m.graphOf other reduction := by
  cases reduction with
  | none => rfl
  | some options => rfl

/-- **A search ends, and is true of its graph**, unless there is no room in the statistics. -/
theorem exists_faithful_graphOf {reduction : Option Options}
    (memory : reduction ≠ none → m.system.fitsMemory = true) (policy : Policy) (limits : Limits)
    (done : Nat → Image → Bool) :
    ∃ outcome members, m.Fires (m.graphOf policy reduction) policy members ∧
      explore (min m.program.spaceSize m.program.stateBound) (m.graphOf policy reduction) limits
        done = some outcome ∧
      outcome.Faithful (m.graphOf policy reduction) fun looked =>
        reduction ≠ none ∧ ¬ m.interpreter.Countable looked := by
  have executes := m.executes_interpreter
  cases reduction with
  | none =>
    have fires := fires_full executes policy
    obtain ⟨outcome, explored, faithful⟩ := fires.exists_faithful
      (Interpreted.functional_full m.interpreter policy) limits done _ fires.ncard_le
    exact ⟨outcome, _, fires, explored, faithful⟩
  | some options =>
    have memory := memory (Option.some_ne_none options)
    have fires := fires_reduced executes memory policy options
    obtain ⟨outcome, explored, faithful⟩ :=
      exists_faithful_reduced executes memory policy options limits done fires.ncard_le
    refine ⟨outcome, _, fires, explored, ?_⟩
    simp only [ne_eq, reduceCtorEq, not_false_eq_true, true_and]
    exact faithful

/-- It looks at states of the model, and under the lenient policy it succeeds if there is room for
these. -/
theorem exists_explore_graphOf {reduction : Option Options}
    (memory : reduction ≠ none → m.system.fitsMemory = true)
    (starts : m.interpreter.initialImage = .ok (State.zero m).image) (policy : Policy)
    (limits : Limits) (done : Nat → Image → Bool) :
    ∃ outcome, explore (min m.program.spaceSize m.program.stateBound) (m.graphOf policy reduction)
        limits done = some outcome ∧
      (∀ state ∈ outcome.expanded, m.IsState state) ∧
      (policy = .lenient → reduction = none ∨ m.interpreter.Countable outcome.looked →
        ∃ report, outcome.result = .ok report) := by
  obtain ⟨outcome, members, fires, explored, faithful⟩ :=
    exists_faithful_graphOf memory policy limits done
  refine ⟨outcome, explored, fun state member => ?_, fun lenient room => ?_⟩
  · exact fires.moves.isState (faithful.reachable state (outcome.expanded_subset member))
  · cases ended : outcome.result with
    | ok report => exact ⟨report, rfl⟩
    | error failure =>
      rcases (fires.inBounds starts faithful).fails failure ended with
        ⟨strict, _⟩ | ⟨_, reduced, crowded⟩
      · rw [lenient] at strict
        cases strict
      · exact absurd (room.resolve_left reduced) crowded

/-- **Strict and lenient searches.** Take a program with a process that is accepted and whose images
can be allocated, and its full graph, or a reduced one if the analysis fits in memory. With any
ceiling and any states to stop at, the lenient search succeeds, if the statistics of a reduction
have room for the states that it looks at. The strict one succeeds exactly if the lenient one does
and no transition that fires in a state that it expands is at fault. In this case the two look at
the same states, their reports are the same, and so are the statistics that they end with. -/
theorem explore_policies {p : Program} {m : Model} (accepted : ofProgram p = .ok m)
    (inhabited : 0 < p.processCount) (allocated : p.imageSize < allocationLimit)
    (reduction : Option Options) (memory : reduction ≠ none → m.system.fitsMemory = true) :
    ∃ lenient strict, Interpreted.build m.interpreter .lenient reduction = .ok lenient ∧
      Interpreted.build m.interpreter .strict reduction = .ok strict ∧
      ∀ (limits : Limits) (done : Nat → Image → Bool), ∃ outcome outcome',
        (∀ bound, min p.spaceSize p.stateBound ≤ bound →
          explore bound lenient limits done = some outcome ∧
            explore bound strict limits done = some outcome') ∧
        (reduction = none ∨ m.interpreter.Countable outcome.looked →
          ∃ report, outcome.result = .ok report) ∧
        ((∃ report, outcome'.result = .ok report) ↔
          (∃ report, outcome.result = .ok report) ∧
            ∀ state ∈ outcome.expanded, lenient.FaultFree p state) ∧
        ∀ report, outcome'.result = .ok report → outcome.result = .ok report ∧
          outcome'.looked = outcome.looked ∧ outcome'.graph.stats = outcome.graph.stats := by
  obtain rfl := program_of_ofProgram accepted
  have starts := initialImage_of_allocated inhabited allocated
  have chooses := chooses_graphOf memory .lenient
  refine ⟨_, _, build_eq memory .lenient, build_eq memory .strict, fun limits done => ?_⟩
  obtain ⟨outcome, explored, known, succeeds⟩ :=
    exists_explore_graphOf memory starts .lenient limits done
  obtain ⟨outcome', explored', known', _⟩ :=
    exists_explore_graphOf memory starts .strict limits done
  have clean_iff : ∀ x : m.State, (m.graphOf .lenient reduction).FaultFree m.program x.image ↔ _ :=
    chooses.faultFree_iff
  have first := explored
  have second := explored'
  rw [← graphOf_withPolicy .lenient .lenient] at first
  rw [← graphOf_withPolicy .lenient .strict] at second
  -- a strict search that succeeds meets no fault, so the lenient one follows it
  have follows : ∀ report, outcome'.result = .ok report →
      outcome.result = .ok report ∧ outcome'.looked = outcome.looked ∧
        outcome'.graph.stats = outcome.graph.stats ∧
        ∀ state ∈ outcome.expanded, (m.graphOf .lenient reduction).FaultFree m.program state := by
    intro report succeeded
    have clean := chooses.clean_of_strict second known' succeeded
    obtain ⟨_, ended, same⟩ := chooses.explore_policy second clean
    cases first.symm.trans ended
    obtain ⟨succeeded', stats⟩ := chooses.eq_of_samePath second first same succeeded
    refine ⟨succeeded', same.looked.symm, stats.symm, fun state member => ?_⟩
    obtain ⟨x, rfl, fine⟩ := clean state (same.expanded ▸ member)
    exact (clean_iff x).mpr fine
  refine ⟨outcome, outcome', fun bound enough => ⟨explore_mono explored enough,
    explore_mono explored' enough⟩, succeeds rfl, ⟨?_, ?_⟩, fun report succeeded => ?_⟩
  · rintro ⟨report, succeeded⟩
    obtain ⟨succeeded', _, _, clean⟩ := follows report succeeded
    exact ⟨⟨report, succeeded'⟩, clean⟩
  · rintro ⟨⟨report, succeeded⟩, clean⟩
    obtain ⟨_, ended, same⟩ := chooses.explore_policy first fun state member => by
      obtain ⟨x, rfl⟩ := known state member
      exact ⟨x, rfl, (clean_iff x).mp (clean _ member)⟩
    cases second.symm.trans ended
    exact ⟨report, (chooses.eq_of_samePath first second same succeeded).1⟩
  · obtain ⟨succeeded', looked, stats, _⟩ := follows report succeeded
    exact ⟨succeeded', looked, stats⟩

/-- Both policies on a process that spins and one that fails. The reduced searches do not get to the
fault and agree; the full ones do, so the strict one fails and the lenient one goes on. -/
theorem explore_policies_spinAndFail :
    (∃ lenient strict outcome outcome',
      Interpreted.build spinAndFailModel.interpreter .lenient (some ⟨.stubbornSet, false⟩)
        = .ok lenient ∧
      Interpreted.build spinAndFailModel.interpreter .strict (some ⟨.stubbornSet, false⟩)
        = .ok strict ∧
      explore spinAndFail.stateBound lenient {} (fun _ _ => false) = some outcome ∧
      explore spinAndFail.stateBound strict {} (fun _ _ => false) = some outcome' ∧
      outcome.result = .ok { states := 1, transitions := 1 } ∧
      (∀ state ∈ outcome.expanded, lenient.FaultFree spinAndFail state) ∧
      outcome'.graph.stats = outcome.graph.stats) ∧
    ∃ outcome report, explore spinAndFail.stateBound
        (Interpreted.full spinAndFailModel.interpreter .lenient) {} (fun _ _ => false)
          = some outcome ∧
      outcome.result = .ok report ∧ ¬ ∀ state ∈ outcome.expanded,
        (Interpreted.full spinAndFailModel.interpreter .lenient).FaultFree spinAndFail state := by
  have accepted : ofProgram spinAndFail = .ok spinAndFailModel := rfl
  refine ⟨?_, ?_⟩
  · obtain ⟨lenient, strict, built, built', searches⟩ := explore_policies accepted (by decide)
      (by decide) (some ⟨.stubbornSet, false⟩) fun _ => by cbv
    obtain ⟨outcome, outcome', ends, _, succeeds, agree⟩ := searches {} fun _ _ => false
    obtain ⟨explored, explored'⟩ := ends spinAndFail.stateBound (Nat.min_le_right _ _)
    have found := explore_reduced_spinAndFail false
    rw [Interpreted.findings_eq_some_iff.mpr ⟨strict, outcome', built', explored', rfl⟩,
      Option.some.injEq, Prod.mk.injEq] at found
    obtain ⟨succeeded, _, stats⟩ := agree _ found.1
    exact ⟨lenient, strict, outcome, outcome', built, built', explored, explored', succeeded,
      (succeeds.mp ⟨_, found.1⟩).2, stats⟩
  · obtain ⟨lenient, strict, built, built', searches⟩ := explore_policies accepted (by decide)
      (by decide) none fun some => absurd rfl some
    cases built
    cases built'
    obtain ⟨outcome, outcome', ends, always, succeeds, _⟩ := searches {} fun _ _ => false
    obtain ⟨explored, explored'⟩ := ends spinAndFail.stateBound (Nat.min_le_right _ _)
    obtain ⟨report, succeeded⟩ := always (.inl rfl)
    refine ⟨outcome, report, explored, succeeded, fun clean => ?_⟩
    obtain ⟨report', ended⟩ := succeeds.mpr ⟨⟨report, succeeded⟩, clean⟩
    have failed := explore_full_spinAndFail
    rw [explored', Option.map_some, ended] at failed
    cases failed

end Model

end StateSpace

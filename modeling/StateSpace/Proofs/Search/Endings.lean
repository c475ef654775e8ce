/-
**How a search ends.**

A round ends the search or follows the edges of one more state, whatever the graph is. So what
following edges keeps true is true of the search that enters its last round.

* `Search.Ending` — how a search ends in a round, and `Search.advance_cases` that else it goes on.
* `Search.run_induct` — a property that is kept holds of the search before its last round.
* `Search.exists_run_of_le` — if it also limits the states that are looked at, the search ends.
* `explore_induct`, `exists_explore_of_le` — the same from the initial state.
* `Search.Replays` — what a search has asked its graph.
* `Outcome.expanded` — the states that were expanded: all that were looked at, but for the one at
  which the search was told to stop. In a search that succeeds their expansions succeeded
  (`replays_of_explore`).
-/

import StateSpace.Proofs.Search.Rounds

namespace StateSpace

open Explorable

variable {G : Type}

namespace Search

/-! ### Following edges, whatever the table knows -/

/-- What following edges leaves alone, and where the states that it adds come from. -/
theorem foldl_follow_grown (limits : Limits) (targets : List Image) (search : Search G) :
    (targets.foldl (follow limits) search).graph = search.graph ∧
      (targets.foldl (follow limits) search).report.states = search.report.states ∧
      ∃ added, (targets.foldl (follow limits) search).discovered.toList
          = search.discovered.toList ++ added ∧ ∀ state ∈ added, state ∈ targets := by
  induction targets generalizing search with
  | nil => exact ⟨rfl, rfl, [], by simp, by simp⟩
  | cons target rest ih =>
    obtain ⟨graph, states, added, grown, fresh⟩ := ih (follow limits search target)
    have first : (follow limits search target).graph = search.graph ∧
        (follow limits search target).report.states = search.report.states ∧
        ∃ added, (follow limits search target).discovered.toList
          = search.discovered.toList ++ added ∧ ∀ state ∈ added, state = target := by
      unfold follow
      dsimp only
      split
      · exact ⟨rfl, rfl, [], by simp, by simp⟩
      · split
        · exact ⟨rfl, rfl, [], by simp, by simp⟩
        · exact ⟨rfl, rfl, [target], Array.toList_push, by simp⟩
    obtain ⟨graph', states', added', grown', fresh'⟩ := first
    refine ⟨graph.trans graph', states.trans states', added' ++ added, ?_, fun state member => ?_⟩
    · rw [List.foldl_cons, grown, grown', List.append_assoc]
    · rcases List.mem_append.mp member with early | late
      · rw [fresh' state early]
        exact List.mem_cons_self
      · exact List.mem_cons_of_mem _ (fresh state late)

/-- The other counters of the report. -/
theorem foldl_follow_report (limits : Limits) (targets : List Image) (search : Search G) :
    (targets.foldl (follow limits) search).report.transitions
        = search.report.transitions + targets.length ∧
      (targets.foldl (follow limits) search).report.accepting = search.report.accepting ∧
      (targets.foldl (follow limits) search).report.stoppedAt = search.report.stoppedAt := by
  induction targets generalizing search with
  | nil => exact ⟨rfl, rfl, rfl⟩
  | cons target rest ih =>
    have first : (follow limits search target).report.transitions
          = search.report.transitions + 1 ∧
        (follow limits search target).report.accepting = search.report.accepting ∧
        (follow limits search target).report.stoppedAt = search.report.stoppedAt := by
      unfold follow
      dsimp only
      split
      · exact ⟨rfl, rfl, rfl⟩
      · split <;> exact ⟨rfl, rfl, rfl⟩
    obtain ⟨transitions, accepting, stoppedAt⟩ := ih (follow limits search target)
    refine ⟨?_, accepting.trans first.2.1, stoppedAt.trans first.2.2⟩
    rw [List.foldl_cons, transitions, first.1, List.length_cons]
    omega

/-! ### One round -/

theorem looked_eq_of_none {search : Search G}
    (missing : search.discovered[search.report.states]? = none) :
    search.looked = search.discovered.toList := by
  refine List.take_of_length_le ?_
  rwa [Array.length_toList, ← Array.getElem?_eq_none_iff]

section Looking

variable {search : Search G} {state : Image}
  (found : search.discovered[search.report.states]? = some state)

include found

theorem looked_looking : search.looking.looked = search.looked ++ [state] := by
  rw [← Array.getElem?_toList] at found
  obtain ⟨inside, get⟩ := List.getElem?_eq_some_iff.mp found
  show search.discovered.toList.take (search.report.states + 1) = _
  rw [looked, List.take_add_one, found]
  rfl

variable [Explorable G]

theorem looked_foldl_follow (limits : Limits) (targets : List Image) :
    (targets.foldl (follow limits) (search.arrived state targets)).looked
      = search.looked ++ [state] := by
  obtain ⟨_, states, added, grown, _⟩ :=
    foldl_follow_grown limits targets (search.arrived state targets)
  rw [← looked_looking found]
  show List.take _ _ = search.discovered.toList.take (search.report.states + 1)
  rw [states, grown]
  show (search.discovered.toList ++ added).take (search.report.states + 1) = _
  refine List.take_append_of_le_length ?_
  rw [← Array.getElem?_toList] at found
  exact (List.getElem?_eq_some_iff.mp found).1

theorem advance_of_stops (limits : Limits) {done : Nat → Image → Bool}
    (stops : done (search.report.states + 1) state = true) :
    search.advance limits done = .ended (search.looking.outcome
      (.ok { search.looking.report with stoppedAt := some state })) := by
  have stops' : done search.looking.report.states state = true := stops
  unfold advance
  rw [found]
  simp only [stops', if_true]

theorem advance_of_goes (limits : Limits) {done : Nat → Image → Bool}
    (goes : done (search.report.states + 1) state = false) :
    search.advance limits done = (search.looking.counted state).expand limits state := by
  have goes' : done search.looking.report.states state = false := goes
  unfold advance
  rw [found]
  simp only [goes', Bool.false_eq_true, if_false]

end Looking

variable [Explorable G] {limits : Limits} {done : Nat → Image → Bool} {search : Search G}

theorem advance_of_none (limits : Limits) {done : Nat → Image → Bool}
    {search : Search G} (missing : search.discovered[search.report.states]? = none) :
    search.advance limits done = .ended (search.outcome (.ok search.report)) := by
  unfold advance
  rw [missing]

/-- **How a search ends in a round.** -/
inductive Ending (done : Nat → Image → Bool) (search : Search G) : Outcome G → Prop where
  /-- No state is left to look at. -/
  | exhausted : search.discovered[search.report.states]? = none →
    Ending done search (search.outcome (.ok search.report))
  /-- The search is told to stop at the next state. -/
  | stopped {state : Image} : search.discovered[search.report.states]? = some state →
    done (search.report.states + 1) state = true →
    Ending done search
      (search.looking.outcome (.ok { search.looking.report with stoppedAt := some state }))
  /-- The expansion of the next state fails. -/
  | failed {state : Image} {failure : Failure} :
    search.discovered[search.report.states]? = some state →
    done (search.report.states + 1) state = false → next search.graph state = .error failure →
    Ending done search
      ⟨.error failure, search.looking.looked, (successors search.graph state).2⟩

/-- **A round ends the search, or it follows the edges of the next state.** -/
theorem advance_cases (limits : Limits) (done : Nat → Image → Bool) (search : Search G) :
    (∃ outcome, search.advance limits done = .ended outcome ∧ Ending done search outcome) ∨
    ∃ state targets, search.discovered[search.report.states]? = some state ∧
      done (search.report.states + 1) state = false ∧ next search.graph state = .ok targets ∧
      search.advance limits done
        = .goesOn (targets.foldl (follow limits) (search.arrived state targets)) := by
  cases found : search.discovered[search.report.states]? with
  | none => exact .inl ⟨_, advance_of_none limits found, .exhausted found⟩
  | some state =>
    by_cases stops : done (search.report.states + 1) state = true
    · exact .inl ⟨_, advance_of_stops found limits stops, .stopped found stops⟩
    · rw [Bool.not_eq_true] at stops
      cases answer : next search.graph state with
      | error failure =>
        refine .inl ⟨_, ?_, .failed found stops answer⟩
        rw [advance_of_goes found limits stops, expand_of_error limits answer]
      | ok targets =>
        refine .inr ⟨state, targets, rfl, stops, answer, ?_⟩
        rw [advance_of_goes found limits stops, expand_of_ok limits answer]

theorem ending_of_advance {outcome : Outcome G}
    (ended : search.advance limits done = .ended outcome) : Ending done search outcome := by
  rcases advance_cases limits done search with ⟨_, ended', ending⟩ | ⟨_, _, _, _, _, goesOn⟩
  · rw [ended, Round.ended.injEq] at ended'
    exact ended' ▸ ending
  · rw [ended] at goesOn
    cases goesOn

/-! ### Whole runs -/

section Kept

variable {P : Search G → Prop}
  (keeps : ∀ {search : Search G} {state : Image} {targets : List Image}, P search →
    search.discovered[search.report.states]? = some state →
    done (search.report.states + 1) state = false → next search.graph state = .ok targets →
    P (targets.foldl (follow limits) (search.arrived state targets)))

include keeps

/-- **What following edges keeps true** is true of the search before its last round. -/
theorem run_induct (holds : P search) {rounds : Nat} {outcome : Outcome G}
    (runs : run limits done rounds search = some outcome) :
    ∃ last, P last ∧ last.advance limits done = .ended outcome ∧
      last.report.states < rounds + search.report.states := by
  induction rounds generalizing search with
  | zero => cases runs
  | succ rounds ih =>
    rw [run] at runs
    rcases advance_cases limits done search with
      ⟨outcome', ended, _⟩ | ⟨state, targets, found, goes, expands, goesOn⟩
    · rw [ended, Option.some.injEq] at runs
      exact ⟨search, holds, runs ▸ ended, by omega⟩
    · rw [goesOn] at runs
      obtain ⟨last, holds', ended, fewer⟩ := ih (keeps holds found goes expands) runs
      have states := (foldl_follow_grown limits targets (search.arrived state targets)).2.1
      refine ⟨last, holds', ended, ?_⟩
      rw [states] at fewer
      have fewer : last.report.states < rounds + (search.report.states + 1) := fewer
      omega

/-- **A run ends** if the states that it looks at are limited. -/
theorem exists_run_of_le {most : Nat}
    (few : ∀ {search : Search G}, P search → search.report.states ≤ most) (holds : P search)
    {rounds : Nat} (enough : most < rounds + search.report.states) :
    ∃ outcome, run limits done rounds search = some outcome := by
  induction rounds generalizing search with
  | zero =>
    have fewer := few holds
    omega
  | succ rounds ih =>
    rw [run]
    rcases advance_cases limits done search with
      ⟨outcome, ended, _⟩ | ⟨state, targets, found, goes, expands, goesOn⟩
    · rw [ended]
      exact ⟨outcome, rfl⟩
    · rw [goesOn]
      refine ih (keeps holds found goes expands) ?_
      have states := (foldl_follow_grown limits targets (search.arrived state targets)).2.1
      rw [states]
      show most < rounds + (search.report.states + 1)
      omega

end Kept

/-- More rounds do not change how a search ended. -/
theorem run_mono {rounds more : Nat} {outcome : Outcome G}
    (runs : run limits done rounds search = some outcome) (le : rounds ≤ more) :
    run limits done more search = some outcome := by
  induction rounds generalizing search more with
  | zero => cases runs
  | succ rounds ih =>
    obtain ⟨more, rfl⟩ : ∃ count, more = count + 1 := ⟨more - 1, by omega⟩
    rw [run] at runs ⊢
    cases advanced : search.advance limits done with
    | ended outcome' =>
      rw [advanced] at runs
      exact runs
    | goesOn later =>
      rw [advanced] at runs
      exact ih runs (by omega)

end Search

/-! ### What a search has asked -/

namespace Search

variable [Explorable G] {graph : G} {search : Search G} {state : Image}

/-- **A search has asked for the states that it looked at**, in their order, and all its questions
were answered. -/
structure Replays (graph : G) (search : Search G) : Prop where
  replayed : search.graph = after graph search.looked
  states : search.looked.length = search.report.states
  answered : ∀ asked state, asked ++ [state] <+: search.looked →
    ∃ targets, next (after graph asked) state = .ok targets
  unmarked : (∀ asked state, accepting (after graph asked) state = false) →
    search.report.accepting = 0

theorem replays_start (graph : G) (state : Image) : Replays graph (start graph state) where
  replayed := rfl
  states := rfl
  answered := by
    intro asked other first
    cases asked <;> exact absurd (List.prefix_nil.mp first) (by simp)
  unmarked _ := rfl

/-- **Expanding one more state** is one more question. -/
theorem Replays.arrive (replays : Replays graph search)
    (found : search.discovered[search.report.states]? = some state) {targets : List Image}
    (expands : next search.graph state = .ok targets) (limits : Limits) :
    Replays graph (targets.foldl (follow limits) (search.arrived state targets)) := by
  have looked := looked_foldl_follow found limits targets
  obtain ⟨handed, states, _⟩ := foldl_follow_grown limits targets (search.arrived state targets)
  refine ⟨?_, ?_, fun asked other first => ?_, fun never => ?_⟩
  · rw [looked, after_append, ← replays.replayed]
    exact handed
  · rw [looked, List.length_append, replays.states, states]
    rfl
  · rw [looked] at first
    rcases List.prefix_concat_iff.mp first with all | before
    · obtain ⟨rfl, single⟩ := List.append_inj' all rfl
      cases single
      exact ⟨targets, replays.replayed ▸ expands⟩
    · exact replays.answered asked other before
  · have quiet : accepting search.graph state = false := replays.replayed ▸ never _ state
    rw [(foldl_follow_report limits targets _).2.1]
    show search.report.accepting + (if accepting search.graph state then 1 else 0) = 0
    rw [quiet, replays.unmarked never]
    rfl

end Search

/-! ### From the initial state -/

section Explore

variable [Explorable G] {graph : G} {limits : Limits} {done : Nat → Image → Bool}

/-- A larger bound on the states does not change how a search ends. -/
theorem explore_mono {bound more : Nat} {outcome : Outcome G}
    (explored : explore bound graph limits done = some outcome) (le : bound ≤ more) :
    explore more graph limits done = some outcome := by
  rw [explore, exploreWithin] at explored ⊢
  cases begins : initial graph with
  | error failure =>
    rw [begins] at explored
    exact explored
  | ok state =>
    rw [begins] at explored
    exact Search.run_mono explored (Nat.succ_le_succ le)

variable {P : Search G → Prop}
  (keeps : ∀ {search : Search G} {state : Image} {targets : List Image}, P search →
    search.discovered[search.report.states]? = some state →
    done (search.report.states + 1) state = false → next search.graph state = .ok targets →
    P (targets.foldl (Search.follow limits) (search.arrived state targets)))
  (starts : ∀ {state : Image}, initial graph = .ok state → P (Search.start graph state))

include keeps starts

/-- **What following edges keeps true** is true of a search before its last round, if there is a
state to start from. -/
theorem explore_induct {bound : Nat} {outcome : Outcome G}
    (explored : explore bound graph limits done = some outcome) :
    (∃ failure, initial graph = .error failure ∧ outcome = ⟨.error failure, [], graph⟩) ∨
      ∃ state last, initial graph = .ok state ∧ P last ∧ last.report.stoppedAt = none ∧
        last.advance limits done = .ended outcome ∧ last.report.states ≤ bound := by
  rw [explore, exploreWithin] at explored
  cases begins : initial graph with
  | error failure =>
    rw [begins, Option.some.injEq] at explored
    exact .inl ⟨failure, rfl, explored.symm⟩
  | ok state =>
    rw [begins] at explored
    obtain ⟨last, ⟨holds, fresh⟩, ended, fewer⟩ :=
      Search.run_induct (P := fun search => P search ∧ search.report.stoppedAt = none)
        (fun both found goes expands => ⟨keeps both.1 found goes expands,
          (Search.foldl_follow_report limits _ _).2.2.trans both.2⟩)
        ⟨starts begins, rfl⟩ explored
    exact .inr ⟨state, last, rfl, holds, fresh, ended, Nat.le_of_lt_succ fewer⟩

variable (limits done) in
/-- **A search ends** if the states that it looks at are limited. -/
theorem exists_explore_of_le {most : Nat}
    (few : ∀ {search : Search G}, P search → search.report.states ≤ most) {bound : Nat}
    (enough : most ≤ bound) : ∃ outcome, explore bound graph limits done = some outcome := by
  rw [explore, exploreWithin]
  cases begins : initial graph with
  | error failure => exact ⟨_, rfl⟩
  | ok state => exact Search.exists_run_of_le keeps few (starts begins) (Nat.lt_succ_of_le enough)

end Explore

/-! ### Expanded states -/

/-- **The states that were expanded.** -/
def Outcome.expanded (outcome : Outcome G) : List Image :=
  match outcome.result with
  | .ok report => if report.stoppedAt.isSome then outcome.looked.dropLast else outcome.looked
  | .error _ => outcome.looked

theorem Outcome.expanded_subset (outcome : Outcome G) : outcome.expanded ⊆ outcome.looked := by
  unfold expanded
  split
  · split
    · exact List.dropLast_subset _
    · exact List.Subset.refl _
  · exact List.Subset.refl _

namespace Search

variable [Explorable G] {limits : Limits} {done : Nat → Image → Bool} {search : Search G}
  {outcome : Outcome G}

/-- All states that were looked at before the last round were expanded. -/
theorem Ending.prefix_expanded (ending : Ending done search outcome)
    (fresh : search.report.stoppedAt = none) : search.looked <+: outcome.expanded := by
  cases ending with
  | exhausted missing =>
    show search.looked <+: if search.report.stoppedAt.isSome then _ else search.looked
    rw [fresh]
    exact List.prefix_refl _
  | stopped found stops =>
    show search.looked <+: search.looking.looked.dropLast
    rw [looked_looking found, List.dropLast_concat]
  | failed found goes fails =>
    show search.looked <+: search.looking.looked
    rw [looked_looking found]
    exact List.prefix_append _ _

/-- **How a search that succeeds ends**: it has expanded what it had looked at, and its counters are
those of before, but for the state at which it was told to stop. -/
theorem Ending.of_ok (ending : Ending done search outcome) (fresh : search.report.stoppedAt = none)
    {report : Report} (succeeded : outcome.result = .ok report) :
    outcome.expanded = search.looked ∧ outcome.graph = search.graph ∧
      report.transitions = search.report.transitions ∧
      report.accepting = search.report.accepting ∧
      report.states = search.report.states + if report.stoppedAt.isSome then 1 else 0 := by
  cases ending with
  | exhausted missing =>
    cases succeeded
    refine ⟨?_, rfl, rfl, rfl, by rw [fresh]; rfl⟩
    show (if search.report.stoppedAt.isSome then _ else search.looked) = search.looked
    rw [fresh]
    rfl
  | stopped found stops =>
    cases succeeded
    refine ⟨?_, rfl, rfl, rfl, rfl⟩
    show search.looking.looked.dropLast = search.looked
    rw [looked_looking found, List.dropLast_concat]
  | failed found goes fails => cases succeeded

/-- What was looked at before some round was expanded when the search ends. -/
theorem looked_prefix_expanded (fresh : search.report.stoppedAt = none) {rounds : Nat}
    (runs : run limits done rounds search = some outcome) :
    search.looked <+: outcome.expanded := by
  obtain ⟨last, ⟨begins, fresh'⟩, ended, _⟩ :=
    run_induct (P := fun later => search.looked <+: later.looked ∧ later.report.stoppedAt = none)
      (fun {between state targets} holds found _ _ => by
        refine ⟨?_, (foldl_follow_report limits targets _).2.2.trans holds.2⟩
        rw [looked_foldl_follow found]
        exact holds.1.trans (List.prefix_append _ _))
      ⟨List.prefix_refl _, fresh⟩ runs
  exact begins.trans ((ending_of_advance ended).prefix_expanded fresh')

end Search

/-- **All expansions of a search that succeeds were answered**, and it counts no accepting states if
there are none. -/
theorem replays_of_explore [Explorable G] {graph : G} {limits : Limits} {done : Nat → Image → Bool}
    {bound : Nat} {outcome : Outcome G} (explored : explore bound graph limits done = some outcome)
    {report : Report} (succeeded : outcome.result = .ok report) :
    (∀ asked state, asked ++ [state] <+: outcome.expanded →
        ∃ targets, next (after graph asked) state = .ok targets) ∧
      ((∀ asked state, accepting (after graph asked) state = false) → report.accepting = 0) := by
  rcases explore_induct (fun replays found _ expands => replays.arrive found expands limits)
      (fun {state} _ => Search.replays_start graph state) explored with
    ⟨failure, _, rfl⟩ | ⟨_, last, _, replays, fresh, ended, _⟩
  · cases succeeded
  · obtain ⟨expanded, _, _, accepting, _⟩ :=
      (Search.ending_of_advance ended).of_ok fresh succeeded
    exact ⟨expanded ▸ replays.answered, fun never => accepting.trans (replays.unmarked never)⟩

end StateSpace

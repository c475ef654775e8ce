/-
**What the outcome of a search tells of the graph.**

* `Outcome.Faithful` — the states that were looked at are reachable and looked at once, the report
  counts them and names no others, and a failure is one of the graph. The graph may also break off,
  if it is asked for more states than it has room for.
* `faithful_of_explore` — so is every outcome, whatever the ceiling is and wherever the search is
  told to stop.
* `Search.EndsAlike.faithful` — and so is that of a search in lockstep with another one.
* `explore_congr` — where to stop is asked about the states looked at, and no others.
* `mem_looked_iff` — a search without bounds that succeeds looks at all reachable states.
-/

import StateSpace.Proofs.Search.Lockstep

namespace StateSpace

open Explorable

variable {G H : Type} [Explorable G]

/-- **An outcome that is true of a graph.** -/
structure Outcome.Faithful (graph : G) (crowded : List Image → Prop) (outcome : Outcome H) :
    Prop where
  nodup : outcome.looked.Nodup
  reachable : ∀ state ∈ outcome.looked, Reachable graph state
  states : ∀ {report}, outcome.result = .ok report → report.states = outcome.looked.length
  deadlocks : ∀ {report}, outcome.result = .ok report →
    ∀ state ∈ report.deadlocks.toList, state ∈ outcome.looked
  stoppedAt : ∀ {report state}, outcome.result = .ok report → report.stoppedAt = some state →
    state ∈ outcome.looked
  fails : ∀ {failure}, outcome.result = .error failure → initial graph = .error failure ∨
    (∃ state ∈ outcome.looked, next graph state = .error failure) ∨
      failure = .abort .overflow ∧ crowded outcome.looked

namespace Search

variable {graph : G} {limits : Limits} {done : Nat → Image → Bool} {search : Search G}

theorem Sound.nodup_looked (sound : Sound graph limits search) : search.looked.Nodup :=
  sound.tabled.nodup.sublist (List.take_sublist _ _)

theorem Sound.mem_of_deadlock (sound : Sound graph limits search) {state : Image}
    (stuck : state ∈ search.report.deadlocks.toList) : state ∈ search.looked := by
  rw [sound.tallies.deadlocks] at stuck
  exact List.mem_of_mem_filter stuck

/-- **The last turn of a sound search ends it faithfully.** -/
theorem Turn.faithful (sound : Sound graph limits search) {outcome : Outcome G}
    (turn : Turn graph limits done search (.ended outcome)) (crowded : List Image → Prop) :
    outcome.Faithful graph crowded := by
  cases turn with
  | exhausted all =>
    exact
      { nodup := sound.nodup_looked
        reachable := fun state member => sound.reachable state (looked_subset member)
        states := by
          rintro _ ⟨⟩
          exact sound.tallies.states
        deadlocks := by
          rintro _ ⟨⟩ state stuck
          exact sound.mem_of_deadlock stuck
        stoppedAt := by
          rintro _ state ⟨⟩ stopped
          rw [sound.tallies.stoppedAt] at stopped
          cases stopped
        fails := by rintro _ ⟨⟩ }
  | @stopped state found stops =>
    have looked : (search.looking.outcome
        (.ok { search.looking.report with stoppedAt := some state })).looked
          = search.looked ++ [state] := looked_looking found
    obtain ⟨nodup, reachable⟩ := sound.asked found
    exact
      { nodup := looked ▸ nodup
        reachable := looked ▸ reachable
        states := by
          rintro _ ⟨⟩
          rw [looked, List.length_append, List.length_singleton, ← sound.tallies.states]
          rfl
        deadlocks := by
          rintro _ ⟨⟩ other stuck
          rw [looked]
          exact List.mem_append_left _ (sound.mem_of_deadlock stuck)
        stoppedAt := by
          rintro _ other ⟨⟩ ⟨⟩
          rw [looked]
          exact List.mem_append_right _ (List.mem_singleton.mpr rfl)
        fails := by rintro _ ⟨⟩ }
  | @failed state failure found goes fails =>
    obtain ⟨nodup, reachable⟩ := sound.asked found
    rw [looked_looking found]
    exact
      { nodup := nodup
        reachable := reachable
        states := by rintro _ ⟨⟩
        deadlocks := by rintro _ ⟨⟩
        stoppedAt := by rintro _ _ ⟨⟩
        fails := by
          rintro _ ⟨⟩
          exact .inr (.inl ⟨state, List.mem_append_right _ (List.mem_singleton.mpr rfl), fails⟩) }

/-- **Only the states that are looked at decide where a run stops.** -/
theorem run_congr {other : Nat → Image → Bool} {rounds : Nat} {outcome : Outcome G}
    (runs : run limits done rounds search = some outcome)
    (agree : ∀ count, ∀ state ∈ outcome.looked, other count state = done count state) :
    run limits other rounds search = some outcome := by
  induction rounds generalizing search with
  | zero => cases runs
  | succ rounds ih =>
    rw [run] at runs ⊢
    cases found : search.discovered[search.report.states]? with
    | none =>
      rw [advance_of_none limits found] at runs ⊢
      exact runs
    | some state =>
      cases stops : done (search.report.states + 1) state with
      | true =>
        rw [advance_of_stops found limits stops, Option.some.injEq] at runs
        have member : state ∈ outcome.looked := by
          rw [← runs]
          show state ∈ search.looking.looked
          rw [looked_looking found]
          exact List.mem_append_right _ (List.mem_singleton.mpr rfl)
        rw [advance_of_stops found limits ((agree _ state member).trans stops), runs]
      | false =>
        rw [advance_of_goes found limits stops] at runs
        have begins := looked_prefix_of_expand found looked_prefix_of_run runs
        have member : state ∈ outcome.looked :=
          begins.subset (List.mem_append_right _ (List.mem_singleton.mpr rfl))
        rw [advance_of_goes found limits ((agree _ state member).trans stops)]
        cases expanded : (search.looking.counted state).expand limits state with
        | ended last => rwa [expanded] at runs
        | goesOn later =>
          rw [expanded] at runs
          exact ih runs

end Search

section Explore

variable {graph : G} {limits : Limits} {done : Nat → Image → Bool} {bound : Nat}
  {outcome : Outcome G}

/-- **Every outcome is true of the graph.** -/
theorem faithful_of_explore (steady : Steady graph) (apart : Search.Apart (Reachable graph))
    (explored : explore bound graph limits done = some outcome) (crowded : List Image → Prop) :
    outcome.Faithful graph crowded := by
  rcases explore_spec steady apart explored with
    ⟨failure, begins, rfl⟩ | ⟨_, last, _, sound, turn, _⟩
  · exact
      { nodup := List.nodup_nil
        reachable := fun _ member => absurd member List.not_mem_nil
        states := by rintro _ ⟨⟩
        deadlocks := by rintro _ ⟨⟩
        stoppedAt := by rintro _ _ ⟨⟩
        fails := by
          rintro _ ⟨⟩
          exact .inl begins }
  · exact turn.faithful sound crowded

theorem explore_congr (explored : explore bound graph limits done = some outcome)
    {other : Nat → Image → Bool}
    (agree : ∀ count, ∀ state ∈ outcome.looked, other count state = done count state) :
    explore bound graph limits other = some outcome := by
  rw [explore, exploreWithin] at explored ⊢
  cases begins : initial graph with
  | error failure =>
    rw [begins] at explored
    exact explored
  | ok state =>
    rw [begins] at explored
    exact Search.run_congr explored agree

/-- **A search without bounds that succeeds looks at all reachable states.** -/
theorem mem_looked_iff (steady : Steady graph) (apart : Search.Apart (Reachable graph))
    (explored : explore bound graph {} (fun _ _ => false) = some outcome) {report : Report}
    (succeeded : outcome.result = .ok report) (state : Image) :
    state ∈ outcome.looked ↔ Reachable graph state := by
  rcases explore_spec steady apart explored with
    ⟨failure, begins, rfl⟩ | ⟨_, last, _, sound, turn, _⟩
  · cases succeeded
  · cases turn with
    | exhausted all => exact (sound.reachable_iff all sound.not_truncated).symm
    | stopped found stops => cases stops
    | failed found goes fails => cases succeeded

end Explore

/-! ### Searches in lockstep -/

/-- What is true of a graph that forgets is true of the graph. -/
theorem Outcome.Faithful.of_frozen {graph : G} {crowded : List Image → Prop} {outcome : Outcome H}
    (faithful : outcome.Faithful (Frozen.mk graph) crowded) : outcome.Faithful graph crowded :=
  { faithful with
    reachable := fun state member => Frozen.reachable_eq graph ▸ faithful.reachable state member
    fails := faithful.fails }

/-- **The outcome of a search in lockstep** is as true as that of the other one. -/
theorem Search.EndsAlike.faithful {I : Type} {graph : G} {crowded : List Image → Prop}
    {first : Outcome H} {second : Outcome I} (alike : Search.EndsAlike crowded first second)
    (faithful : second.Faithful graph crowded) : first.Faithful graph crowded := by
  rcases alike with ⟨breaks, full, begins⟩ | ⟨result, looked⟩
  · have isError : ∀ {report}, first.result ≠ .ok report := by
      intro report succeeded
      rw [breaks] at succeeded
      cases succeeded
    exact
      { nodup := faithful.nodup.sublist begins.sublist
        reachable := fun state member => faithful.reachable state (begins.subset member)
        states := fun succeeded => absurd succeeded isError
        deadlocks := fun succeeded => absurd succeeded isError
        stoppedAt := fun succeeded => absurd succeeded isError
        fails := by
          intro failure failed
          rw [breaks, Except.error.injEq] at failed
          exact .inr (.inr ⟨failed.symm, full⟩) }
  · obtain ⟨firstResult, firstLooked, firstGraph⟩ := first
    obtain ⟨secondResult, secondLooked, secondGraph⟩ := second
    cases result
    cases looked
    exact
      { nodup := faithful.nodup
        reachable := faithful.reachable
        states := faithful.states
        deadlocks := faithful.deadlocks
        stoppedAt := faithful.stoppedAt
        fails := faithful.fails }

end StateSpace

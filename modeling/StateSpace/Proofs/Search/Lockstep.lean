/-
**Searches in lockstep.**

Two graphs may answer alike although they remember different things. A search asks them the same
questions, so it ends alike on both, unless one of them breaks off.

* `Search.Lockstep` — a relation between two graphs that is kept while they answer alike. The first
  one may break off with an overflow instead, but only once the states that it was asked for are
  more than it has room for.
* `explore_lockstep` — the whole searches end alike, or the first one breaks off.
* `Verdict` — what a search without bounds may say of a graph.
* `Frozen` — the graph that forgets what it was asked: it always answers as it did at first, so all
  that holds of graphs with answers that depend on the state alone holds of it, and there is as
  much to find in it as in the graph itself (`Frozen.reachable_eq`, `Frozen.verdict`).
-/

import StateSpace.Proofs.Search.Exactness

namespace StateSpace

open Explorable

variable {G H : Type}

namespace Search

/-! ### One search on two graphs -/

/-- The search with everything as it is, but on another graph. -/
def withGraph (search : Search G) (graph : H) : Search H :=
  ⟨graph, search.discovered, search.visited, search.report⟩

theorem follow_withGraph (limits : Limits) (search : Search G) (graph : H) (state : Image) :
    follow limits (search.withGraph graph) state
      = (follow limits search state).withGraph graph := by
  have full : (search.withGraph graph).isFull limits = search.isFull limits := rfl
  unfold follow
  rw [full]
  by_cases met : search.visited.contains state = true
  · have met' : (search.withGraph graph).visited.contains state = true := met
    rw [if_pos met, if_pos met']
    rfl
  · have met' : ¬ (search.withGraph graph).visited.contains state = true := met
    rw [if_neg met, if_neg met']
    by_cases ceiling : search.isFull limits = true
    · rw [if_pos ceiling, if_pos ceiling]
      rfl
    · rw [if_neg ceiling, if_neg ceiling]
      rfl

theorem foldl_follow_withGraph (limits : Limits) (targets : List Image) (search : Search G)
    (graph : H) :
    targets.foldl (follow limits) (search.withGraph graph)
      = (targets.foldl (follow limits) search).withGraph graph := by
  induction targets generalizing search with
  | nil => rfl
  | cons target rest ih => rw [List.foldl_cons, follow_withGraph, ih, List.foldl_cons]

section Looking

variable [Explorable G] {search : Search G} {state : Image}
  (found : search.discovered[search.report.states]? = some state)

include found

/-- A search that expands a state goes on from there. -/
theorem looked_prefix_of_expand {limits : Limits} {continues : Search G → Option (Outcome G)}
    {outcome : Outcome G}
    (later : ∀ {after : Search G}, continues after = some outcome →
      after.looked <+: outcome.looked)
    (ends : (match (search.looking.counted state).expand limits state with
      | .ended outcome => some outcome
      | .goesOn after => continues after) = some outcome) :
    search.looked ++ [state] <+: outcome.looked := by
  cases answer : next search.graph state with
  | error failure =>
    rw [expand_of_error limits answer, Option.some.injEq] at ends
    rw [← ends, ← looked_looking found]
  | ok targets =>
    rw [expand_of_ok limits answer] at ends
    have kept := later ends
    rwa [looked_foldl_follow found] at kept

end Looking

/-- **What was looked at stays looked at** to the end of a run. -/
theorem looked_prefix_of_run [Explorable G] {limits : Limits} {done : Nat → Image → Bool}
    {rounds : Nat} {search : Search G} {outcome : Outcome G}
    (runs : run limits done rounds search = some outcome) : search.looked <+: outcome.looked := by
  obtain ⟨last, begins, ended, _⟩ := run_induct (P := fun later => search.looked <+: later.looked)
    (fun {between state targets} holds found _ _ => by
      rw [looked_foldl_follow found]
      exact holds.trans (List.prefix_append _ _))
    (List.prefix_refl _) runs
  refine begins.trans ?_
  cases ending_of_advance ended with
  | exhausted missing => exact List.prefix_refl _
  | stopped found _ =>
    show last.looked <+: last.looking.looked
    rw [looked_looking found]
    exact List.prefix_append _ _
  | failed found _ _ =>
    show last.looked <+: last.looking.looked
    rw [looked_looking found]
    exact List.prefix_append _ _

/-! ### Lockstep -/

variable [Explorable G] [Explorable H]

/-- **Two graphs that answer alike** about known states, as long as the first one has room for the
states that it is asked for. -/
structure Lockstep (known : Image → Prop) (crowded : List Image → Prop)
    (agree : List Image → G → H → Prop) : Prop where
  accepting : ∀ {asked : List Image} {first : G} {second : H} {state : Image},
    agree asked first second → known state →
    Explorable.accepting first state = Explorable.accepting second state
  answers : ∀ {asked : List Image} {first : G} {second : H} {state : Image},
    agree asked first second → known state →
    next first state = .error (.abort .overflow) ∧ crowded (asked ++ [state]) ∨
      next first state = next second state ∧
        agree (asked ++ [state]) (successors first state).2 (successors second state).2
  closed : ∀ {asked : List Image} {first : G} {second : H} {state : Image} {targets : List Image},
    agree asked first second → known state → next second state = .ok targets →
    ∀ target ∈ targets, known target

variable {known : Image → Prop} {crowded : List Image → Prop} {agree : List Image → G → H → Prop}
  {limits : Limits} {done : Nat → Image → Bool}

/-- How a search on the first graph ended, compared with one on the second. -/
def EndsAlike (crowded : List Image → Prop) (first : Outcome G) (second : Outcome H) : Prop :=
  first.result = .error (.abort .overflow) ∧ crowded first.looked ∧
      first.looked <+: second.looked ∨
    first.result = second.result ∧ first.looked = second.looked

/-- **A run on the first graph ends like one on the second**, or the first graph breaks off. -/
theorem Lockstep.run (lockstep : Lockstep known crowded agree) {search : Search G} {graph : H}
    (agrees : agree search.looked search.graph graph)
    (knows : ∀ state ∈ search.discovered.toList, known state) {rounds : Nat} {outcome : Outcome H}
    (runs : Search.run limits done rounds (search.withGraph graph) = some outcome) :
    ∃ outcome', Search.run limits done rounds search = some outcome' ∧
      EndsAlike crowded outcome' outcome := by
  -- the induction is on the rounds; one round keeps the relation or ends both searches
  induction rounds generalizing search graph with
  | zero => cases runs
  | succ rounds ih =>
    rw [Search.run] at runs ⊢
    cases found : search.discovered[search.report.states]? with
    | none =>
      have found' : (search.withGraph graph).discovered[(search.withGraph graph).report.states]?
          = none := found
      rw [advance_of_none limits found', Option.some.injEq] at runs
      rw [advance_of_none limits found, ← runs]
      exact ⟨_, rfl, .inr ⟨rfl, rfl⟩⟩
    | some state =>
      have found' : (search.withGraph graph).discovered[(search.withGraph graph).report.states]?
          = some state := found
      have isKnown := knows state (mem_discovered found)
      by_cases stops : done (search.report.states + 1) state = true
      · rw [advance_of_stops found' limits stops, Option.some.injEq] at runs
        rw [advance_of_stops found limits stops, ← runs]
        exact ⟨_, rfl, .inr ⟨rfl, rfl⟩⟩
      · rw [Bool.not_eq_true] at stops
        rw [advance_of_goes found' limits stops] at runs
        rw [advance_of_goes found limits stops]
        rcases lockstep.answers agrees isKnown with ⟨breaks, full⟩ | ⟨same, later⟩
        · rw [expand_of_error limits breaks]
          refine ⟨_, rfl, .inl ⟨rfl, ?_⟩⟩
          show crowded search.looking.looked ∧ search.looking.looked <+: outcome.looked
          rw [looked_looking found]
          exact ⟨full, looked_prefix_of_expand found' looked_prefix_of_run runs⟩
        · cases answer : next graph state with
          | error failure =>
            have fails : next (search.withGraph graph).graph state = .error failure := answer
            rw [expand_of_error limits fails, Option.some.injEq] at runs
            rw [expand_of_error limits (same.trans answer), ← runs]
            exact ⟨_, rfl, .inr ⟨rfl, rfl⟩⟩
          | ok targets =>
            have expands : next (search.withGraph graph).graph state = .ok targets := answer
            have arrives : (search.withGraph graph).arrived state targets
                = (search.arrived state targets).withGraph (successors graph state).2 := by
              unfold arrived withGraph
              rw [lockstep.accepting agrees isKnown]
            rw [expand_of_ok limits expands, arrives, foldl_follow_withGraph] at runs
            rw [expand_of_ok limits (same.trans answer)]
            obtain ⟨graphKept, _, added, grown, fresh⟩ :=
              foldl_follow_grown limits targets (search.arrived state targets)
            refine ih ?_ (fun other member => ?_) runs
            · rw [looked_foldl_follow found, graphKept]
              exact later
            · rw [grown] at member
              rcases List.mem_append.mp member with old | new
              · exact knows other old
              · exact lockstep.closed agrees isKnown answer other (fresh other new)

end Search

/-- **Searches in lockstep end alike**, or the first graph breaks off. -/
theorem explore_lockstep [Explorable G] [Explorable H] {known : Image → Prop}
    {crowded : List Image → Prop} {agree : List Image → G → H → Prop}
    (lockstep : Search.Lockstep known crowded agree) {first : G} {second : H}
    (agrees : agree [] first second) (starts : initial first = initial second)
    (knows : ∀ state, initial second = .ok state → known state) {bound : Nat} {limits : Limits}
    {done : Nat → Image → Bool} {outcome : Outcome H}
    (explored : explore bound second limits done = some outcome) :
    ∃ outcome', explore bound first limits done = some outcome' ∧
      Search.EndsAlike crowded outcome' outcome := by
  unfold explore exploreWithin at explored ⊢
  rw [starts]
  cases begins : initial second with
  | error failure =>
    rw [begins, Option.some.injEq] at explored
    rw [← explored]
    exact ⟨_, rfl, .inr ⟨rfl, rfl⟩⟩
  | ok state =>
    rw [begins] at explored
    have met : agree (Search.start first state).looked first second := agrees
    refine lockstep.run met (fun other member => ?_) explored
    rw [List.mem_singleton.mp member]
    exact knows state begins

/-! ### What a search without bounds says -/

/-- **What a search without bounds may say of a graph**: that there is nowhere to start from, that
the expansion of a reachable state fails, or exactly what there is to find. -/
inductive Verdict [Explorable G] (graph : G) : Except Failure Report → Prop where
  | noStart {failure : Failure} : initial graph = .error failure → Verdict graph (.error failure)
  | failed {state : Image} {failure : Failure} :
    Reachable graph state → next graph state = .error failure → Verdict graph (.error failure)
  | exact {start : Image} {report : Report} : initial graph = .ok start →
    (∀ state, Reachable graph state → ∃ targets, next graph state = .ok targets) →
    report.Exact graph → Verdict graph (.ok report)

theorem Verdict.eq_of_noStart [Explorable G] {graph : G} {result : Except Failure Report}
    {failure : Failure} (verdict : Verdict graph result) (begins : initial graph = .error failure) :
    result = .error failure := by
  cases verdict with
  | noStart begins' =>
    rw [begins, Except.error.injEq] at begins'
    rw [begins']
  | failed reachable _ =>
    refine reachable.induct (fun _ => _) (fun state starts => ?_) fun _ _ _ same _ => same
    rw [begins] at starts
    cases starts
  | exact starts _ _ =>
    rw [begins] at starts
    cases starts

theorem verdict_of_explore [Explorable G] {graph : G} (functional : Functional graph)
    (apart : Search.Apart (Reachable graph)) {bound : Nat} {outcome : Outcome G}
    (explored : explore bound graph {} (fun _ _ => false) = some outcome) :
    Verdict graph outcome.result := by
  rcases explore_unbounded functional.steady apart explored with
    ⟨failure, failed, begins | ⟨state, reachable, fails⟩⟩ |
    ⟨report, ended, exact, _, _, ⟨start, begins⟩, expands⟩
  · rw [failed]
    exact .noStart begins
  · rw [failed]
    exact .failed reachable fails
  · rw [ended]
    exact .exact begins expands exact

/-! ### Graphs that forget -/

/-- **A graph that forgets what it was asked.** -/
structure Frozen (G : Type) where
  graph : G

instance [Explorable G] : Explorable (Frozen G) where
  initial frozen := Explorable.initial frozen.graph
  successors frozen state := (next frozen.graph state, frozen)
  accepting frozen := Explorable.accepting frozen.graph
  format frozen := Explorable.format frozen.graph

namespace Frozen

variable [Explorable G]

theorem functional (frozen : Frozen G) : Functional frozen :=
  .of_fixed fun _ => rfl

theorem reached_eq (graph : G) : Reached (Frozen.mk graph) = Reached graph := by
  funext count state
  refine propext ⟨fun reached => ?_, fun reached => ?_⟩
  · induction reached with
    | start begins => exact .start begins
    | step _ edge ih => exact .step ih edge
  · induction reached with
    | start begins => exact .start begins
    | step _ edge ih => exact .step ih edge

/-- **It has the reachable states of the graph.** -/
theorem reachable_eq (graph : G) : Reachable (Frozen.mk graph) = Reachable graph := by
  unfold Reachable
  rw [reached_eq]

theorem distance_eq (graph : G) : distance (Frozen.mk graph) = distance graph := by
  unfold distance
  rw [reached_eq]

/-- What is found in it is found in the graph. -/
theorem exact {graph : G} {report : Report} (exact : report.Exact (Frozen.mk graph)) :
    report.Exact graph := by
  have near := distance_eq graph
  have reachable := reachable_eq graph
  refine ⟨?_, ?_, ?_, exact.nodup_deadlocks, ?_, ?_, exact.truncated, exact.stoppedAt⟩
  · rw [← reachable]
    exact exact.states
  · rw [← reachable]
    exact exact.transitions
  · rw [← reachable]
    exact exact.mem_deadlocks
  · rw [← near]
    exact exact.ordered_deadlocks
  · rw [← reachable]
    exact exact.accepting

theorem verdict {graph : G} {result : Except Failure Report}
    (verdict : Verdict (Frozen.mk graph) result) : Verdict graph result := by
  have reachable := reachable_eq graph
  cases verdict with
  | noStart begins => exact .noStart begins
  | failed known fails => exact .failed (reachable ▸ known) fails
  | exact begins expands exact =>
    exact .exact begins (fun state known => expands state (reachable ▸ known)) (Frozen.exact exact)

end Frozen

end StateSpace

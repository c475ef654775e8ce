/-
**Searches that take the same path.**

A search asks its graph for successors of the states that it expands, and for nothing else that
decides where it goes. So a search of another graph takes the same path if that graph answers alike
about these states. How many of them accept does not matter for that.

* `Outcome.SamePath` — outcomes of searches that looked at the same states and found the same.
* `Search.run_transfer`, `explore_transfer` — graphs that answer alike about the states expanded in
  one of them give searches with the same path.
* `Explorable.Determined` — the successors of a state depend on the state alone. Then the graph that
  forgets what it was asked gives the same path (`explore_frozen`, `explore_of_frozen`).
-/

import StateSpace.Proofs.Search.Lockstep

namespace StateSpace

open Explorable

variable {G H : Type}

/-- The report without the number of accepting states. -/
def Report.unmarked (report : Report) : Report :=
  { report with accepting := 0 }

theorem Report.eq_of_unmarked {first second : Report} (alike : first.unmarked = second.unmarked)
    (accepting : first.accepting = second.accepting) : first = second := by
  obtain ⟨⟩ := first
  obtain ⟨⟩ := second
  simp_all [Report.unmarked]

/-- **Outcomes of the same path**: they are the same but for the states that were counted as
accepting, and what the graphs remember is related. -/
structure Outcome.SamePath (agree : G → H → Prop) (first : Outcome G) (second : Outcome H) :
    Prop where
  looked : second.looked = first.looked
  result : second.result.map Report.unmarked = first.result.map Report.unmarked
  graph : agree first.graph second.graph

namespace Outcome.SamePath

variable {agree : G → H → Prop} {first : Outcome G} {second : Outcome H}

/-- **If the first search succeeds, so does the second one.** -/
theorem exists_ok (same : first.SamePath agree second) {report : Report}
    (succeeded : first.result = .ok report) :
    ∃ report', second.result = .ok report' ∧ report'.unmarked = report.unmarked := by
  have result := same.result
  rw [succeeded] at result
  cases ended : second.result with
  | error failure =>
    rw [ended] at result
    cases result
  | ok report' =>
    rw [ended] at result
    exact ⟨report', rfl, Except.ok.inj result⟩

theorem exists_ok_of_second (same : first.SamePath agree second) {report : Report}
    (succeeded : second.result = .ok report) :
    ∃ report', first.result = .ok report' ∧ report'.unmarked = report.unmarked := by
  have flipped : second.SamePath (fun x y => agree y x) first :=
    ⟨same.looked.symm, same.result.symm, same.graph⟩
  exact flipped.exists_ok succeeded

/-- The same states are expanded. -/
theorem expanded (same : first.SamePath agree second) : second.expanded = first.expanded := by
  cases ended : first.result with
  | error failure =>
    have result := same.result
    rw [ended] at result
    cases ended' : second.result with
    | error failure' => simp only [Outcome.expanded, ended, ended', same.looked]
    | ok report' =>
      rw [ended'] at result
      cases result
  | ok report =>
    obtain ⟨report', ended', alike⟩ := same.exists_ok ended
    have stoppedAt : report'.stoppedAt = report.stoppedAt := congrArg (·.stoppedAt) alike
    simp only [Outcome.expanded, ended, ended', same.looked, stoppedAt]

end Outcome.SamePath

namespace Search

/-- The search with another number of accepting states. -/
def marked (search : Search G) (accepting : Nat) : Search G :=
  { search with report := { search.report with accepting := accepting } }

theorem follow_marked (limits : Limits) (search : Search G) (accepting : Nat) (state : Image) :
    follow limits (search.marked accepting) state
      = (follow limits search state).marked accepting := by
  unfold follow
  by_cases met : search.visited.contains state = true
  · simp [marked, met]
  · by_cases full : search.isFull limits = true
    · have full' : (search.marked accepting).isFull limits = true := full
      simp only [full, full', if_true]
      simp [marked, met]
    · have full' : ¬ (search.marked accepting).isFull limits = true := full
      simp only [full, full']
      simp [marked, met]

theorem foldl_follow_marked (limits : Limits) (targets : List Image) (search : Search G)
    (accepting : Nat) :
    targets.foldl (follow limits) (search.marked accepting)
      = (targets.foldl (follow limits) search).marked accepting := by
  induction targets generalizing search with
  | nil => rfl
  | cons target rest ih => rw [List.foldl_cons, follow_marked, ih, List.foldl_cons]

variable [Explorable G] [Explorable H] {agree : G → H → Prop} {limits : Limits}
  {done : Nat → Image → Bool}

/-- **A run on a graph that answers alike takes the same path**, if it does so about the states that
are expanded. -/
theorem run_transfer {search : Search G} {graph : H} (agrees : agree search.graph graph)
    (fresh : search.report.stoppedAt = none) {rounds : Nat} {outcome : Outcome G}
    (runs : run limits done rounds search = some outcome)
    (answers : ∀ {first : G} {second : H} {state : Image}, agree first second →
      state ∈ outcome.expanded → next first state = next second state ∧
        agree (successors first state).2 (successors second state).2) (accepting : Nat) :
    ∃ outcome', run limits done rounds ((search.withGraph graph).marked accepting)
        = some outcome' ∧ outcome.SamePath agree outcome' := by
  -- the induction is on the rounds; the two searches differ in the graph and in one counter
  induction rounds generalizing search graph accepting with
  | zero => cases runs
  | succ rounds ih =>
    let second := (search.withGraph graph).marked accepting
    rw [run] at runs ⊢
    rcases advance_cases limits done search with
      ⟨outcome', ended, ending⟩ | ⟨state, targets, found, goes, expands, goesOn⟩
    · rw [ended, Option.some.injEq] at runs
      subst runs
      cases ending with
      | exhausted missing =>
        have missing' : second.discovered[second.report.states]? = none := missing
        rw [advance_of_none limits missing']
        exact ⟨_, rfl, rfl, rfl, agrees⟩
      | stopped found stops =>
        have found' : second.discovered[second.report.states]? = some _ := found
        rw [advance_of_stops found' limits stops]
        exact ⟨_, rfl, rfl, rfl, agrees⟩
      | @failed state failure found goes fails =>
        have found' : second.discovered[second.report.states]? = some state := found
        have expanded : state ∈ search.looking.looked := by
          rw [looked_looking found]
          exact List.mem_append_right _ (List.mem_singleton.mpr rfl)
        obtain ⟨same, later⟩ := answers agrees expanded
        have fails' : next second.graph state = .error failure := same.symm.trans fails
        rw [advance_of_goes found' limits goes, expand_of_error limits fails']
        exact ⟨_, rfl, rfl, rfl, later⟩
    · rw [goesOn] at runs
      have found' : second.discovered[second.report.states]? = some state := found
      have fresh' : (targets.foldl (follow limits) (search.arrived state targets)).report.stoppedAt
          = none := (foldl_follow_report limits targets _).2.2.trans fresh
      have expanded : state ∈ outcome.expanded := by
        refine (looked_prefix_expanded fresh' runs).subset ?_
        rw [looked_foldl_follow found]
        exact List.mem_append_right _ (List.mem_singleton.mpr rfl)
      obtain ⟨same, later⟩ := answers agrees expanded
      have expands' : next second.graph state = .ok targets := same.symm.trans expands
      have arrives : second.arrived state targets
          = ((search.arrived state targets).withGraph (successors graph state).2).marked
              (accepting + if Explorable.accepting graph state then 1 else 0) := rfl
      have graphKept := (foldl_follow_grown limits targets (search.arrived state targets)).1
      rw [advance_of_goes found' limits goes, expand_of_ok limits expands', arrives,
        foldl_follow_marked, foldl_follow_withGraph]
      exact ih (graphKept ▸ later) fresh' runs _

end Search

variable [Explorable G] [Explorable H]

/-- **Searches of graphs that answer alike** about the expanded states take the same path. -/
theorem explore_transfer (agree : G → H → Prop) {first : G} {second : H}
    (agrees : agree first second) (starts : initial first = initial second) {limits : Limits}
    {done : Nat → Image → Bool} {bound : Nat} {outcome : Outcome G}
    (explored : explore bound first limits done = some outcome)
    (answers : ∀ {first : G} {second : H} {state : Image}, agree first second →
      state ∈ outcome.expanded → next first state = next second state ∧
        agree (successors first state).2 (successors second state).2) :
    ∃ outcome', explore bound second limits done = some outcome' ∧
      outcome.SamePath agree outcome' := by
  unfold explore exploreWithin at explored ⊢
  rw [← starts]
  cases begins : initial first with
  | error failure =>
    rw [begins, Option.some.injEq] at explored
    subst explored
    exact ⟨_, rfl, rfl, rfl, agrees⟩
  | ok state =>
    rw [begins] at explored
    exact Search.run_transfer agrees rfl explored answers 0

/-! ### Graphs whose successors are determined -/

namespace Explorable

/-- **The successors of a state depend on the state alone**, whatever the graph was asked before. -/
def Determined (graph : G) : Prop :=
  ∀ asked state, next (after graph asked) state = next graph state

end Explorable

variable {graph : G} {limits : Limits} {done : Nat → Image → Bool} {bound : Nat}

/-- The graph that forgets gives a search with the same path. -/
theorem explore_frozen (determined : Determined graph) {outcome : Outcome G}
    (explored : explore bound graph limits done = some outcome) :
    ∃ outcome', explore bound (Frozen.mk graph) limits done = some outcome' ∧
      outcome.SamePath (fun _ _ => True) outcome' := by
  obtain ⟨outcome', explored', same⟩ := explore_transfer
    (fun first (second : Frozen G) => second = .mk graph ∧ ∃ asked, first = after graph asked)
    ⟨rfl, [], rfl⟩ rfl explored fun {_ _ state} agrees _ => by
      obtain ⟨rfl, asked, rfl⟩ := agrees
      exact ⟨determined asked state, rfl, asked ++ [state],
        (after_append graph asked [state]).symm⟩
  exact ⟨outcome', explored', same.looked, same.result, trivial⟩

/-- And where its search ends, so does that of the graph. -/
theorem explore_of_frozen (determined : Determined graph) {outcome : Outcome (Frozen G)}
    (explored : explore bound (Frozen.mk graph) limits done = some outcome) :
    ∃ outcome', explore bound graph limits done = some outcome' ∧
      outcome.SamePath (fun _ _ => True) outcome' := by
  obtain ⟨outcome', explored', same⟩ := explore_transfer
    (fun (first : Frozen G) second => first = .mk graph ∧ ∃ asked, second = after graph asked)
    ⟨rfl, [], rfl⟩ rfl explored fun {_ _ state} agrees _ => by
      obtain ⟨rfl, asked, rfl⟩ := agrees
      exact ⟨(determined asked state).symm, rfl, asked ++ [state],
        (after_append graph asked [state]).symm⟩
  exact ⟨outcome', explored', same.looked, same.result, trivial⟩

end StateSpace

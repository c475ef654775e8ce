/-
**The statistics of a reduced search and its report.**

A state that is expanded is entered in the statistics before its transitions fire, and in the report
as its edges are followed. So the two accounts differ by the faults that were tolerated, and by the
state at which the search was told to stop, which was not expanded.

* `Interpreted.toleratedAlong` — the faults tolerated while states are expanded one after the other;
  none under the strict policy.
* `Interpreted.Books` — what the statistics hold after some states; `Interpreted.Books.push` is one
  more state.
* `Interpreted.Balanced` — each kept transition leads to a successor or to a fault.
* `Interpreted.Audited` — the invariant of a search, and `Interpreted.Audited.arrive` its step.
* `Interpreted.Tame.books_of_explore` — what a search that succeeds leaves behind.
-/

import StateSpace.Proofs.Expansion
import StateSpace.Proofs.Reduction.Statistics
import StateSpace.Proofs.Search.Endings

namespace StateSpace

open Explorable

/-- **What a record changes**, figure by figure. -/
theorem Stats.of_record {stats later : Stats} {reduced enabled : Nat}
    (recorded : stats.record reduced enabled = .ok later) :
    later.states = stats.states + 1 ∧ later.reduced = stats.reduced + reduced ∧
      later.enabled = stats.enabled + enabled ∧
      later.minReduced = min stats.minReduced reduced ∧
      later.maxReduced = max stats.maxReduced reduced ∧
      later.minEnabled = min stats.minEnabled enabled ∧
      later.maxEnabled = max stats.maxEnabled enabled := by
  have spec := stats.record_spec reduced enabled
  rw [recorded] at spec
  exact spec.2

namespace Interpreted

/-! ### Tolerated faults -/

/-- The faults that are tolerated when a state is expanded. -/
def tolerated (g : Interpreted) (state : Image) : List RuntimeError :=
  match (g.expand state).1 with
  | .ok expansion => expansion.faults
  | .error _ => []

/-- **The faults that are tolerated when states are expanded one after the other.** -/
def toleratedAlong (g : Interpreted) : List Image → List RuntimeError
  | [] => []
  | state :: rest => g.tolerated state ++ (g.expand state).2.toleratedAlong rest

theorem toleratedAlong_concat (g : Interpreted) (asked : List Image) (state : Image) :
    g.toleratedAlong (asked ++ [state])
      = g.toleratedAlong asked ++ (after g asked).tolerated state := by
  induction asked generalizing g with
  | nil => simp [toleratedAlong, after]
  | cons first rest ih =>
    rw [List.cons_append, toleratedAlong, ih, toleratedAlong, List.append_assoc]
    rfl

theorem tolerated_of_expand {g graph : Interpreted} {state : Image} {expansion : Expansion}
    (expanded : g.expand state = (.ok expansion, graph)) :
    g.tolerated state = expansion.faults := by
  unfold tolerated
  rw [expanded]

/-- **Nothing is tolerated under the strict policy.** -/
theorem toleratedAlong_strict {g : Interpreted} (strict : g.policy = .strict)
    (asked : List Image) : g.toleratedAlong asked = [] := by
  induction asked generalizing g with
  | nil => rfl
  | cons state rest ih =>
    rw [toleratedAlong]
    unfold tolerated expand
    cases chosen : g.chosen state with
    | error failure => exact ih strict
    | ok choice =>
      rw [ih (by exact strict), List.append_nil]
      cases executed : g.interpreter.execute g.policy state choice.1 with
      | error failure => simp only [executed]
      | ok expansion =>
        simp only [executed]
        rw [strict] at executed
        exact Interpreter.faults_of_execute_strict executed

/-! ### The books -/

/-- **What the statistics hold after some states.** -/
structure Books (g : Interpreted) (r : Reducer) (asked : List Image) (stats : Stats) : Prop
    extends Tame.Remembers g asked stats where
  kept : stats.reduced = (asked.map fun state => (g.keptList r state).length).sum
  most : stats.maxReduced ≤ stats.maxEnabled
  least : stats.minReduced ≤ stats.minEnabled

variable {g : Interpreted} {r : Reducer} {known : Image → Prop} {state : Image}
  {stats later : Stats}

theorem length_keptList (g : Interpreted) (r : Reducer) (state : Image) :
    (g.keptList r state).length
      = (r.flags (g.interpreter.enabledList state) (g.oracle state)).count true :=
  length_kept_flags _ _ _

theorem books_initial (g : Interpreted) (r : Reducer) : Books g r [] .initial where
  states := rfl
  enabled := rfl
  reduced := Nat.le_refl _
  kept := rfl
  most := Nat.le_refl _
  least := Nat.le_refl _

/-- **One more state.** -/
theorem Books.push {asked : List Image} (books : Books g r asked stats)
    (recorded : stats.record (g.keptList r state).length
      (g.interpreter.enabledList state).length = .ok later) :
    Books g r (asked ++ [state]) later := by
  have fewer : (g.keptList r state).length ≤ (g.interpreter.enabledList state).length := by
    rw [length_keptList]
    exact Tame.count_flags_le g r state
  obtain ⟨states, reduced, enabled, minReduced, maxReduced, minEnabled, maxEnabled⟩ :=
    Stats.of_record recorded
  have counted := reduced
  rw [length_keptList] at counted
  refine ⟨books.toRemembers.push states counted enabled, ?_, ?_, ?_⟩
  · rw [reduced, books.kept, List.map_append, List.sum_append, List.map_singleton,
      List.sum_singleton]
  · rw [maxReduced, maxEnabled]
    exact max_le_max books.most fewer
  · rw [minReduced, minEnabled]
    exact min_le_min books.least fewer

/-- **An expansion that succeeds** was recorded, and fires the kept transitions. -/
theorem Tame.expand_of_next (tame : g.Tame r known) (isKnown : known state) {targets : List Image}
    (expands : next (g.withStats stats) state = .ok targets) :
    ∃ later expansion,
      stats.record (g.keptList r state).length (g.interpreter.enabledList state).length
        = .ok later ∧
      g.interpreter.execute g.policy state (g.keptList r state) = .ok expansion ∧
      expansion.states = targets ∧
      (g.withStats stats).expand state = (.ok expansion, g.withStats later) := by
  rcases stats.record_cases
      ((r.flags (g.interpreter.enabledList state) (g.oracle state)).count true)
      (g.interpreter.enabledList state).length with ⟨later, recorded, _⟩ | ⟨full, _⟩
  · have expanded := tame.expand_withStats isKnown recorded
    have expands : ((g.withStats stats).expand state).1.map Expansion.states = .ok targets :=
      expands
    rw [expanded] at expands
    cases executed : g.interpreter.execute g.policy state (g.keptList r state) with
    | error failure =>
      rw [executed] at expands
      cases expands
    | ok expansion =>
      rw [executed] at expands expanded
      exact ⟨later, expansion, by rw [length_keptList]; exact recorded, rfl, Except.ok.inj expands,
        expanded⟩
  · rw [tame.next_of_overflow isKnown full] at expands
    cases expands

/-! ### The accounts of a search -/

/-- **Each kept transition leads to a successor or to a tolerated fault**, in an expansion that
succeeds. -/
def Balanced (g : Interpreted) (r : Reducer) (known : Image → Prop) : Prop :=
  ∀ state expansion, known state →
    g.interpreter.execute g.policy state (g.keptList r state) = .ok expansion →
    (g.keptList r state).length = expansion.states.length + expansion.faults.length

/-- **The invariant of a search**: the books are kept up to the last state, and what was kept has
been followed or was a fault. -/
structure Audited (g : Interpreted) (r : Reducer) (known : Image → Prop)
    (search : Search Interpreted) : Prop extends Search.Replays g search where
  known : ∀ state ∈ search.discovered.toList, known state
  books : ∃ stats, search.graph = g.withStats stats ∧ Books g r search.looked stats
  edges : (search.looked.map fun state => (g.keptList r state).length).sum
    = search.report.transitions + (g.toleratedAlong search.looked).length

theorem Tame.audited_start (tame : g.Tame r known) (isKnown : known state) :
    Audited g r known (.start g state) where
  toReplays := Search.replays_start g state
  known := by
    intro other member
    rw [List.mem_singleton.mp member]
    exact isKnown
  books := ⟨.initial, tame.withStats_initial.symm, books_initial g r⟩
  edges := rfl

/-- **Expanding one more state keeps the accounts.** -/
theorem Audited.arrive {search : Search Interpreted} (audited : Audited g r known search)
    (tame : g.Tame r known) (balanced : g.Balanced r known)
    (closed : ∀ state targets, known state → next g state = .ok targets →
      ∀ target ∈ targets, known target)
    (found : search.discovered[search.report.states]? = some state) {targets : List Image}
    (expands : next search.graph state = .ok targets) (limits : Limits) :
    Audited g r known (targets.foldl (Search.follow limits) (search.arrived state targets)) := by
  have isKnown := audited.known state (Search.mem_discovered found)
  have looked := Search.looked_foldl_follow found limits targets
  have replays := audited.toReplays.arrive found expands limits
  obtain ⟨graph, _, added, grown, fresh⟩ :=
    Search.foldl_follow_grown limits targets (search.arrived state targets)
  have transitions := (Search.foldl_follow_report limits targets (search.arrived state targets)).1
  obtain ⟨stats, withStats, books⟩ := audited.books
  rw [withStats] at expands
  obtain ⟨later, expansion, recorded, executed, rfl, expanded⟩ :=
    tame.expand_of_next isKnown expands
  have handed : (successors search.graph state).2 = g.withStats later := by
    show (search.graph.expand state).2 = _
    rw [withStats, expanded]
  refine ⟨replays, fun other member => ?_, ⟨later, graph.trans handed, ?_⟩, ?_⟩
  · rw [grown] at member
    rcases List.mem_append.mp member with old | new
    · exact audited.known other old
    · refine closed state expansion.states isKnown ?_ other (fresh other new)
      rw [tame.next_eq isKnown, executed]
      rfl
  · rw [looked]
    exact books.push recorded
  · have faults : (after g search.looked).tolerated state = expansion.faults := by
      rw [← audited.replayed, withStats]
      exact tolerated_of_expand expanded
    have before : (search.arrived state expansion.states).report.transitions
        = search.report.transitions := rfl
    rw [looked, toleratedAlong_concat, faults, List.map_append, List.sum_append, List.map_singleton,
      List.sum_singleton, audited.edges, balanced state expansion isKnown executed, transitions,
      before, List.length_append]
    omega

/-- **What a search that succeeds leaves behind**: books of the states that it expanded, in which
each kept transition is an edge of the report or a fault that was tolerated. -/
theorem Tame.books_of_explore (tame : g.Tame r known) (balanced : g.Balanced r known)
    (begins : ∀ state, g.interpreter.initialImage = .ok state → known state)
    (closed : ∀ state targets, known state → next g state = .ok targets →
      ∀ target ∈ targets, known target) {limits : Limits} {done : Nat → Image → Bool} {bound : Nat}
    {outcome : Outcome Interpreted} (explored : explore bound g limits done = some outcome)
    {report : Report} (succeeded : outcome.result = .ok report) :
    (∀ state ∈ outcome.expanded, known state) ∧
      outcome.expanded.length + (if report.stoppedAt.isSome then 1 else 0) = report.states ∧
      ∃ stats, outcome.graph = g.withStats stats ∧ Books g r outcome.expanded stats ∧
        stats.reduced = report.transitions + (g.toleratedAlong outcome.expanded).length := by
  rcases explore_induct
      (fun audited found _ expands => audited.arrive tame balanced closed found expands limits)
      (fun begun => tame.audited_start (begins _ begun)) explored with
    ⟨failure, _, rfl⟩ | ⟨_, last, _, audited, fresh, ended, _⟩
  · cases succeeded
  · obtain ⟨expanded, graph, transitions, _, states⟩ :=
      (Search.ending_of_advance ended).of_ok fresh succeeded
    obtain ⟨stats, withStats, books⟩ := audited.books
    rw [expanded]
    refine ⟨fun state member => audited.known state (List.mem_of_mem_take member), ?_,
      stats, graph.trans withStats, books, ?_⟩
    · rw [audited.states, states]
    · rw [books.kept, audited.edges, transitions]

end Interpreted

end StateSpace

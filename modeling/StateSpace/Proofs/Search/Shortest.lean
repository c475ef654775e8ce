/-
**A search stops at a closest state.**

States are looked at in the order of their distance, and a ceiling leaves out none before the last
ones. So when a search is told to stop at a state, it has been at all closer ones.

* `Search.Seeks` — the invariant: a state is discovered only after all that are closer, and the
  search was told to stop at none that it looked at. `Search.Seeks.arrive` is its step.
* `Search.Seeks.distance_le` — where the search is told to stop, it stops at a closest state.
* `explore_shortest` — so does every search, and if it does not stop and is not cut short, there is
  no state to stop at.
-/

import StateSpace.Proofs.Search.Discovery

namespace StateSpace

open Explorable

variable {G : Type} [Explorable G]

namespace Search

/-- **The invariant of a search for certain states.** -/
structure Seeks (graph : G) (limits : Limits) (done : Image → Bool) (search : Search G) : Prop where
  sound : Sound graph limits search
  closer : ∀ state ∈ search.discovered.toList, ∀ other, Reachable graph other →
    distance graph other < distance graph state → other ∈ search.discovered.toList
  undone : ∀ state ∈ search.looked, done state = false

variable {graph : G} {limits : Limits} {done : Image → Bool} {search : Search G} {state : Image}

theorem seeks_start (apart : Apart (Reachable graph)) (limits : Limits) (done : Image → Bool)
    (begins : initial graph = .ok state) : Seeks graph limits done (start graph state) where
  sound := sound_start apart limits begins
  closer := by
    intro first member other _ near
    have zero := distance_le (.start begins)
    rw [List.mem_singleton.mp member] at near
    omega
  undone := by simp [looked, start]

namespace Seeks

/-- **Looking at one more state keeps the invariant.** -/
theorem arrive (seeks : Seeks graph limits done search) (steady : Steady graph)
    (apart : Apart (Reachable graph))
    (found : search.discovered[search.report.states]? = some state) (goes : done state = false)
    {targets : List Image} (expands : next search.graph state = .ok targets) :
    Seeks graph limits done (targets.foldl (follow limits) (search.arrived state targets)) := by
  have sound := seeks.sound
  have expands' := (sound.next_graph steady found).symm.trans expands
  obtain ⟨later, looked⟩ := sound.arrive steady apart found expands'
  obtain ⟨followed, _⟩ := sound.follows apart found expands'
  obtain ⟨added, grown, fresh⟩ := followed.grown
  refine ⟨later, fun first member other reachable near => ?_, fun other member => ?_⟩
  · rw [grown] at member ⊢
    refine List.mem_append_left added ?_
    rcases List.mem_append.mp member with old | new
    · exact seeks.closer first old other reachable near
    · -- a new target is one step further than the next state, and there was room for all before it
      obtain ⟨target, unknown, notFull⟩ := fresh first new
      have room := sound.not_truncated_of_room notFull
      have exactly := sound.distance_of_new found room ⟨targets, expands', target⟩ unknown
      exact sound.mem_of_distance_le found room reachable (by omega)
  · rw [looked] at member
    rcases List.mem_append.mp member with before | single
    · exact seeks.undone other before
    · rw [List.mem_singleton.mp single]
      exact goes

/-- **No state to stop at is closer than the next one.** -/
theorem distance_le (seeks : Seeks graph limits done search)
    (found : search.discovered[search.report.states]? = some state) {other : Image}
    (reachable : Reachable graph other) (stops : done other = true) :
    distance graph state ≤ distance graph other := by
  by_contra further
  have member :=
    seeks.closer state (mem_discovered found) other reachable (Nat.lt_of_not_le further)
  have looked := (seeks.sound.looked_or_distance_le found member).resolve_right further
  rw [seeks.undone other looked] at stops
  cases stops

/-- **There is no state to stop at**, if none is left to look at and none was left out. -/
theorem done_eq_false (seeks : Seeks graph limits done search)
    (all : search.looked = search.discovered.toList) (room : search.report.truncated = false)
    {other : Image} (reachable : Reachable graph other) : done other = false :=
  seeks.undone other ((seeks.sound.reachable_iff all room).mp reachable)

end Seeks

end Search

/-- **A report that stops at a closest state**, or tells that there is none to stop at. -/
structure Report.Shortest (graph : G) (done : Image → Bool) (report : Report) : Prop where
  stopped : ∀ state, report.stoppedAt = some state → Reachable graph state ∧ done state = true ∧
    ∀ other, Reachable graph other → done other = true →
      distance graph state ≤ distance graph other
  missing : report.stoppedAt = none → report.truncated = false →
    ∀ state, Reachable graph state → done state = false

/-- **A search of a graph without memory stops at a closest state.** -/
theorem shortest_of_explore {graph : G} (functional : Functional graph)
    (apart : Search.Apart (Reachable graph)) {limits : Limits} {done : Image → Bool} {bound : Nat}
    {outcome : Outcome G} (explored : explore bound graph limits (fun _ => done) = some outcome)
    {report : Report} (succeeded : outcome.result = .ok report) : report.Shortest graph done := by
  rcases explore_induct
      (fun seeks found goes expands => seeks.arrive functional.steady apart found goes expands)
      (Search.seeks_start apart limits done) explored with
    ⟨failure, _, rfl⟩ | ⟨_, last, _, seeks, fresh, ended, _⟩
  · cases succeeded
  · cases Search.ending_of_advance ended with
    | exhausted missing =>
      cases succeeded
      refine ⟨fun state stopped => ?_, fun _ room state reachable => ?_⟩
      · rw [fresh] at stopped
        cases stopped
      · exact seeks.done_eq_false (Search.looked_eq_of_none missing) room reachable
    | @stopped state found stops =>
      cases succeeded
      refine ⟨fun other stopped => ?_, fun none => by cases none⟩
      cases stopped
      exact ⟨seeks.sound.reachable state (Search.mem_discovered found), stops,
        fun other reachable done => seeks.distance_le found reachable done⟩
    | failed found goes fails => cases succeeded

/-- **Early stops.** Take a graph in which the successors of a state depend on the state alone and
whose reachable states are of one length, and a search with any ceiling or none. If it succeeds and
was told to stop at a state, this is a reachable state to stop at, and no other one is closer. If it
was not told to stop and not cut short either, no reachable state is one to stop at. -/
theorem explore_shortest (graph : G) (determined : Determined graph)
    (length : ∀ first second, Reachable graph first → Reachable graph second →
      first.size = second.size) (limits : Limits) (done : Image → Bool) {bound : Nat}
    {outcome : Outcome G} (explored : explore bound graph limits (fun _ => done) = some outcome)
    {report : Report} (succeeded : outcome.result = .ok report) :
    (∀ state, report.stoppedAt = some state → Reachable graph state ∧ done state = true ∧
      ∀ other, Reachable graph other → done other = true →
        distance graph state ≤ distance graph other) ∧
    (report.stoppedAt = none → report.truncated = false →
      ∀ state, Reachable graph state → done state = false) := by
  have apart : Search.Apart (Reachable (Frozen.mk graph)) := by
    rw [Frozen.reachable_eq]
    exact .of_size length
  obtain ⟨frozen, explored', same⟩ := explore_frozen determined explored
  obtain ⟨report', succeeded', alike⟩ := same.exists_ok succeeded
  obtain ⟨stopped, missing⟩ :=
    shortest_of_explore (Frozen.functional (Frozen.mk graph)) apart explored' succeeded'
  have stoppedAt : report'.stoppedAt = report.stoppedAt := congrArg (·.stoppedAt) alike
  have truncated : report'.truncated = report.truncated := congrArg (·.truncated) alike
  rw [stoppedAt, Frozen.reachable_eq, Frozen.distance_eq] at stopped
  rw [stoppedAt, truncated, Frozen.reachable_eq] at missing
  exact ⟨stopped, missing⟩

/-- Of the ends of two ways the closer one is found, although the other one is left out. -/
theorem explore_shortest_twoWays :
    ∃ outcome report,
      explore 4 twoWays ⟨some 4⟩ (fun _ state => [[3], [5]].contains state.bytes) = some outcome ∧
      outcome.result = .ok report ∧ report.stoppedAt = some (.ofBytes [3]) ∧
      report.truncated = true ∧
      ∀ other, Reachable twoWays other → [[3], [5]].contains other.bytes = true →
        distance twoWays (.ofBytes [3]) ≤ distance twoWays other := by
  have found : (explore 4 twoWays ⟨some 4⟩ (fun _ state => [[3], [5]].contains state.bytes)).map
      Outcome.result = some (.ok ⟨4, 5, #[], 0, true, some (.ofBytes [3])⟩) := by decide
  obtain ⟨outcome, explored, succeeded⟩ := Option.map_eq_some_iff.mp found
  obtain ⟨stopped, _⟩ := explore_shortest twoWays (Listed.functional twoWays).successors
    (fun first second reachable reachable' => (size_of_reachable_twoWays reachable).trans
      (size_of_reachable_twoWays reachable').symm) ⟨some 4⟩
    (fun state => [[3], [5]].contains state.bytes) explored succeeded
  exact ⟨outcome, _, explored, succeeded, rfl, rfl, (stopped _ rfl).2.2⟩

end StateSpace

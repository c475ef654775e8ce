/-
**What looking at one more state keeps true.**

* `Report.Tallies` — the counters of a report are those of the states that were looked at.
* `Search.Sound` — the invariant: the discovered states are reachable, without repetition and in
  the order of their distance; all edges of the states looked at were followed; and the report
  tallies these.
* `Search.Sound.mem_of_distance_le`, `Search.Sound.distance_le_succ_of_mem` — what is not further
  than the next state is discovered, and nothing is that is further by more than one step. So a new
  target is one step further (`Search.Sound.distance_of_new`), and the new targets come last in the
  order (`Search.Sound.ordered_append`).
* `Search.Sound.arrive` — looking at one more state keeps the invariant.
-/

import Mathlib.Data.Set.Card
import StateSpace.Proofs.Search.Edges
import StateSpace.Proofs.Search.Reachability

namespace StateSpace

open Explorable

variable {G : Type} [Explorable G]

/-- **The counters of a report** are those of the states that were looked at. -/
structure Report.Tallies (graph : G) (looked : List Image) (report : Report) : Prop where
  states : report.states = looked.length
  transitions : report.transitions = (looked.map fun state => (outgoing graph state).length).sum
  deadlocks : report.deadlocks.toList = looked.filter (isDeadlock graph)
  accepting : report.accepting = looked.countP (Explorable.accepting graph)
  stoppedAt : report.stoppedAt = none

/-- Looking at one more state. -/
theorem Report.Tallies.push {graph : G} {looked : List Image} {before after : Report}
    (tallies : before.Tallies graph looked) {state : Image}
    (states : after.states = before.states + 1)
    (transitions : after.transitions = before.transitions + (outgoing graph state).length)
    (deadlocks : after.deadlocks.toList
      = before.deadlocks.toList ++ if isDeadlock graph state then [state] else [])
    (accepts : after.accepting
      = before.accepting + if Explorable.accepting graph state then 1 else 0)
    (stoppedAt : after.stoppedAt = before.stoppedAt) :
    after.Tallies graph (looked ++ [state]) where
  states := by rw [states, tallies.states, List.length_append, List.length_singleton]
  transitions := by
    rw [transitions, tallies.transitions, List.map_append, List.sum_append, List.map_singleton,
      List.sum_singleton]
  deadlocks := by
    rw [deadlocks, tallies.deadlocks, List.filter_append, List.filter_singleton,
      Bool.cond_eq_ite]
  accepting := by rw [accepts, tallies.accepting, List.countP_append, List.countP_singleton]
  stoppedAt := stoppedAt.trans tallies.stoppedAt

namespace Search

/-- **The invariant of a search.** -/
structure Sound (graph : G) (limits : Limits) (search : Search G) : Prop where
  tabled : Tabled (Reachable graph) search
  reachable : ∀ state ∈ search.discovered.toList, Reachable graph state
  started : ∀ state, initial graph = .ok state → state ∈ search.discovered.toList
  entered : ∀ target ∈ search.discovered.toList,
    initial graph = .ok target ∨ ∃ state ∈ search.looked, Edge graph state target
  expanded : ∀ state ∈ search.looked, ∃ targets, next graph state = .ok targets
  followed : ∀ state ∈ search.looked, ∀ target, Edge graph state target →
    target ∈ search.discovered.toList ∨ search.report.truncated = true
  ordered : search.discovered.toList.Pairwise fun first second =>
    distance graph first ≤ distance graph second
  remembers : search.graph = after graph search.looked
  tallies : search.report.Tallies graph search.looked
  full : search.report.truncated = true → search.isFull limits = true

/-- The search that has met the initial state only is sound. -/
theorem sound_start {graph : G} {state : Image} (apart : Apart (Reachable graph))
    (limits : Limits) (begins : initial graph = .ok state) :
    Sound graph limits (start graph state) where
  tabled := by
    refine ⟨List.nodup_singleton state, fun other reachable => ?_⟩
    rw [start, Visited.contains_insert, Visited.contains_empty, Bool.or_false,
      apart other state reachable (.start begins)]
    exact List.mem_singleton.symm
  reachable := by
    intro other member
    rw [List.mem_singleton.mp member]
    exact .start begins
  started := by
    intro other begins'
    rw [begins, Except.ok.injEq] at begins'
    exact List.mem_singleton.mpr begins'.symm
  entered := by
    intro other member
    rw [List.mem_singleton.mp member]
    exact .inl begins
  expanded := by simp [looked, start]
  followed := by simp [looked, start]
  ordered := List.pairwise_singleton _ state
  remembers := rfl
  tallies := ⟨rfl, rfl, rfl, rfl, rfl⟩
  full := by simp [start]

/-! ### Distances -/

namespace Sound

variable {graph : G} {limits : Limits} {search : Search G} {state : Image}

/-- A discovered state was looked at, or it is as far as the next one. -/
theorem looked_or_distance_le (sound : Sound graph limits search)
    (found : search.discovered[search.report.states]? = some state) {other : Image}
    (member : other ∈ search.discovered.toList) :
    other ∈ search.looked ∨ distance graph state ≤ distance graph other := by
  obtain ⟨rest, split⟩ := exists_rest found
  have ordered := sound.ordered
  rw [split] at ordered member
  rcases List.mem_append.mp member with before | later
  · exact .inl before
  · refine .inr ?_
    rcases List.mem_cons.mp later with rfl | beyond
    · exact Nat.le_refl _
    · exact (List.pairwise_cons.mp (List.pairwise_append.mp ordered).2.1).1 other beyond

/-- **What is not further than the next state is discovered**, unless the ceiling was reached: a
state on the way to it is closer than the next one, so it was looked at. -/
theorem mem_of_distance_le (sound : Sound graph limits search)
    (found : search.discovered[search.report.states]? = some state)
    (room : search.report.truncated = false) {other : Image} (reachable : Reachable graph other)
    (near : distance graph other ≤ distance graph state) :
    other ∈ search.discovered.toList := by
  -- the induction is on the distance of the other state
  generalize far : distance graph other = count at near
  induction count generalizing other with
  | zero => exact sound.started other (initial_of_distance_eq_zero reachable far)
  | succ count ih =>
    obtain ⟨before, reachable', closer, edge⟩ := exists_closer reachable far
    have known := ih reachable' closer (by omega)
    have looked : before ∈ search.looked := by
      refine (sound.looked_or_distance_le found known).resolve_right fun further => ?_
      omega
    refine (sound.followed before looked other edge).resolve_right ?_
    rw [room]
    exact Bool.false_ne_true

/-- **What is discovered is at most one step further than the next state.** -/
theorem distance_le_succ_of_mem (sound : Sound graph limits search)
    (found : search.discovered[search.report.states]? = some state) {other : Image}
    (member : other ∈ search.discovered.toList) :
    distance graph other ≤ distance graph state + 1 := by
  obtain ⟨rest, split⟩ := exists_rest found
  rcases sound.entered other member with begins | ⟨before, looked, edge⟩
  · have zero := distance_le (.start begins)
    omega
  · have further := distance_le_succ (sound.reachable before (looked_subset looked)) edge
    have ordered := sound.ordered
    rw [split] at ordered
    have closer := (List.pairwise_append.mp ordered).2.2 before looked state List.mem_cons_self
    omega

/-- **A target that is new is exactly one step further than the next state**, unless the ceiling was
reached. -/
theorem distance_of_new (sound : Sound graph limits search)
    (found : search.discovered[search.report.states]? = some state)
    (room : search.report.truncated = false) {target : Image} (edge : Edge graph state target)
    (unknown : target ∉ search.discovered.toList) :
    distance graph target = distance graph state + 1 := by
  have reachable := sound.reachable state (mem_discovered found)
  have further := distance_le_succ reachable edge
  have notNear : ¬ distance graph target ≤ distance graph state := fun near =>
    unknown (sound.mem_of_distance_le found room (reachable.step edge) near)
  omega

/-- As long as there is room for more states, none was left out. -/
theorem not_truncated_of_room (sound : Sound graph limits search)
    (notFull : search.isFull limits = false) : search.report.truncated = false := by
  refine Bool.eq_false_iff.mpr fun truncated => ?_
  rw [sound.full truncated] at notFull
  cases notFull

/-- **The new targets come last in the order by distance.** -/
theorem ordered_append (sound : Sound graph limits search)
    (found : search.discovered[search.report.states]? = some state) {added : List Image}
    (fresh : ∀ target ∈ added, Edge graph state target ∧ target ∉ search.discovered.toList ∧
      search.isFull limits = false) :
    (search.discovered.toList ++ added).Pairwise fun first second =>
      distance graph first ≤ distance graph second := by
  have exactly : ∀ target ∈ added, distance graph target = distance graph state + 1 := by
    intro target new
    obtain ⟨edge, unknown, notFull⟩ := fresh target new
    exact sound.distance_of_new found (sound.not_truncated_of_room notFull) edge unknown
  refine List.pairwise_append.mpr ⟨sound.ordered, ?_, fun other old target new => ?_⟩
  · refine List.pairwise_of_forall_mem_list fun first isNew second isNew' => ?_
    rw [exactly first isNew, exactly second isNew']
  · rw [exactly target new]
    exact sound.distance_le_succ_of_mem found old

end Sound

/-! ### One more state -/

/-- **The search that arrived at a state**: its edges are known and not yet followed. -/
def arrived (search : Search G) (state : Image) (targets : List Image) : Search G where
  graph := (successors search.graph state).2
  discovered := search.discovered
  visited := search.visited
  report :=
    { search.report with
      states := search.report.states + 1
      accepting := search.report.accepting
        + if Explorable.accepting search.graph state then 1 else 0
      deadlocks := if targets.isEmpty then search.report.deadlocks.push state
        else search.report.deadlocks }

theorem counted_eq (search : Search G) (state : Image) :
    search.counted state = { search with
      report := { search.report with
        accepting := search.report.accepting
          + if Explorable.accepting search.graph state then 1 else 0 } } := by
  unfold counted
  split <;> rfl

theorem graph_counted (search : Search G) (state : Image) :
    (search.counted state).graph = search.graph := by
  rw [counted_eq]

/-- Where the expansion succeeds, the search arrives and follows the edges. -/
theorem expand_of_ok (limits : Limits) {search : Search G} {state : Image} {targets : List Image}
    (expands : next search.graph state = .ok targets) :
    (search.looking.counted state).expand limits state
      = .goesOn (targets.foldl (follow limits) (search.arrived state targets)) := by
  have answer : Explorable.successors search.looking.graph state
      = (.ok targets, (successors search.graph state).2) := Prod.ext expands rfl
  rw [expand, graph_counted, answer, counted_eq]
  cases targets with
  | nil => rfl
  | cons target rest => rfl

/-- Where it fails, the search ends. -/
theorem expand_of_error (limits : Limits) {search : Search G} {state : Image} {failure : Failure}
    (fails : next search.graph state = .error failure) :
    (search.looking.counted state).expand limits state
      = .ended ⟨.error failure, search.looking.looked, (successors search.graph state).2⟩ := by
  have answer : Explorable.successors search.looking.graph state
      = (.error failure, (successors search.graph state).2) := Prod.ext fails rfl
  rw [expand, graph_counted, answer, counted_eq]
  rfl

namespace Sound

variable {graph : G} {limits : Limits} {search : Search G} {state : Image}

/-- The states looked at and the next one: reachable, and no repetition. -/
theorem asked (sound : Sound graph limits search)
    (found : search.discovered[search.report.states]? = some state) :
    (search.looked ++ [state]).Nodup ∧
      ∀ other ∈ search.looked ++ [state], Reachable graph other := by
  obtain ⟨rest, split⟩ := exists_rest found
  have begins : search.looked ++ [state] <+: search.discovered.toList :=
    ⟨rest, by rw [split, List.append_assoc, List.singleton_append]⟩
  exact ⟨sound.tabled.nodup.sublist begins.sublist,
    fun other member => sound.reachable other (begins.subset member)⟩

theorem next_graph (sound : Sound graph limits search) (steady : Steady graph)
    (found : search.discovered[search.report.states]? = some state) :
    next search.graph state = next graph state := by
  obtain ⟨nodup, reachable⟩ := sound.asked found
  rw [sound.remembers]
  exact steady.successors nodup reachable

theorem accepting_graph (sound : Sound graph limits search) (steady : Steady graph)
    (found : search.discovered[search.report.states]? = some state) :
    Explorable.accepting search.graph state = Explorable.accepting graph state := by
  obtain ⟨nodup, reachable⟩ := sound.asked found
  rw [sound.remembers]
  exact steady.accepting nodup reachable

/-- The counters after looking at one more state and following its edges. -/
theorem tallies_arrived (sound : Sound graph limits search) (steady : Steady graph)
    (found : search.discovered[search.report.states]? = some state) {targets : List Image}
    (expands : next graph state = .ok targets) {later : Search G}
    (followed : Followed limits targets (search.arrived state targets) later) :
    later.report.Tallies graph (search.looked ++ [state]) := by
  refine sound.tallies.push followed.states ?_ ?_ ?_ followed.stoppedAt
  · rw [followed.transitions, outgoing_eq expands]
    rfl
  · rw [followed.deadlocks, arrived]
    have stuck : isDeadlock graph state = targets.isEmpty := by rw [isDeadlock, expands]
    rw [stuck]
    cases targets with
    | nil => exact Array.toList_push
    | cons target rest => exact (List.append_nil _).symm
  · rw [followed.accepting, arrived, sound.accepting_graph steady found]

/-- The edges of the next state are followed, and the table still knows the discovered states. -/
theorem follows (sound : Sound graph limits search) (apart : Apart (Reachable graph))
    (found : search.discovered[search.report.states]? = some state) {targets : List Image}
    (expands : next graph state = .ok targets) :
    let later := targets.foldl (follow limits) (search.arrived state targets)
    Followed limits targets (search.arrived state targets) later ∧
      Tabled (Reachable graph) later := by
  have reachable := sound.reachable state (mem_discovered found)
  exact foldl_follow_spec apart limits targets
    (fun target member => reachable.step ⟨targets, expands, member⟩)
    (search.arrived state targets) ⟨sound.tabled.nodup, sound.tabled.contains_iff⟩

/-- **Looking at one more state keeps the invariant.** -/
theorem arrive (sound : Sound graph limits search) (steady : Steady graph)
    (apart : Apart (Reachable graph))
    (found : search.discovered[search.report.states]? = some state) {targets : List Image}
    (expands : next graph state = .ok targets) :
    let later := targets.foldl (follow limits) (search.arrived state targets)
    Sound graph limits later ∧ later.looked = search.looked ++ [state] := by
  intro later
  obtain ⟨rest, split⟩ := exists_rest found
  have reachableState := sound.reachable state (mem_discovered found)
  obtain ⟨followed, tabled⟩ := sound.follows apart found expands
  obtain ⟨added, grown, fresh⟩ := followed.grown
  have looked : later.looked = search.looked ++ [state] := by
    have count : later.report.states = (search.looked ++ [state]).length := by
      rw [followed.states, List.length_append, List.length_singleton, ← sound.tallies.states]
      rfl
    have order : later.discovered.toList = (search.looked ++ [state]) ++ (rest ++ added) := by
      rw [grown, arrived, split]
      simp
    rw [Search.looked, count, order, List.take_left']
    rfl
  refine ⟨{
    tabled := tabled
    reachable := ?reachable
    started := fun other begins => followed.subset (sound.started other begins)
    entered := ?entered
    expanded := ?expanded
    followed := ?followed
    ordered := ?ordered
    remembers := ?remembers
    tallies := ?tallies
    full := ?full }, looked⟩
  case reachable =>
    intro other member
    rw [grown] at member
    rcases List.mem_append.mp member with old | new
    · exact sound.reachable other old
    · exact reachableState.step ⟨targets, expands, (fresh other new).1⟩
  case entered =>
    intro target member
    rw [looked]
    rw [grown] at member
    rcases List.mem_append.mp member with old | new
    · refine (sound.entered target old).imp_right ?_
      rintro ⟨before, wasLooked, edge⟩
      exact ⟨before, List.mem_append_left _ wasLooked, edge⟩
    · exact .inr ⟨state, List.mem_append_right _ (List.mem_singleton.mpr rfl), targets, expands,
        (fresh target new).1⟩
  case expanded =>
    intro other member
    rw [looked] at member
    rcases List.mem_append.mp member with before | single
    · exact sound.expanded other before
    · rw [List.mem_singleton.mp single]
      exact ⟨targets, expands⟩
  case followed =>
    intro other member target edge
    rw [looked] at member
    rcases List.mem_append.mp member with before | single
    · exact (sound.followed other before target edge).imp followed.subset followed.truncated
    · rw [List.mem_singleton.mp single] at edge
      exact followed.met target ((edge_iff expands).mp edge)
  case ordered =>
    rw [grown]
    exact sound.ordered_append found fun target new =>
      ⟨⟨targets, expands, (fresh target new).1⟩, (fresh target new).2⟩
  case remembers =>
    rw [followed.graph, looked, after_append, ← sound.remembers]
    rfl
  case tallies =>
    rw [looked]
    exact sound.tallies_arrived steady found expands followed
  case full =>
    intro truncated
    rcases followed.full truncated with before | full
    · exact isFull_of_size_le followed.size_le (sound.full before)
    · exact full

end Sound

end Search

end StateSpace

/-
**The order of discovery, and searches with a ceiling.**

The states of a graph have an order in which a breadth-first search meets them: the initial state,
then the targets of the first state, those of the second one, and so on, each where it occurs first.
A search with a ceiling looks at the first states in this order, as many as the ceiling admits, and
at the initial one in any case.

* `Explorable.found` — the states that are met by expanding some states, in order.
* `Explorable.breadthFirst` — the first so many states, each of them met by expanding those before.
  All reachable states are listed so (`Explorable.reachable_iff_mem_breadthFirst`).
* `Search.Lists` — a search has discovered the first of the states that it met, and it knows whether
  there were more. Following edges keeps this (`Search.Lists.follow`, `Search.Lists.foldl_follow`).
* `Search.Capped` — the invariant of a search with a ceiling, and `Search.Capped.arrive` its step.
* `Report.Capped` — what the report of such a search says, and `explore_ceiling` that it does.
-/

import Mathlib.Data.ENat.Lattice
import Mathlib.Data.Set.Card
import StateSpace.Proofs.Lists
import StateSpace.Proofs.Search.Exactness
import StateSpace.Proofs.Search.Transfer

namespace StateSpace

open Explorable

variable {G : Type} [Explorable G]

namespace Explorable

/-! ### The order of discovery -/

/-- The initial state, if there is one. -/
def starts (graph : G) : List Image :=
  match initial graph with
  | .ok state => [state]
  | .error _ => []

/-- The initial state and the targets of some states, in their order and with repetitions. -/
def met (graph : G) (expanded : List Image) : List Image :=
  starts graph ++ expanded.flatMap (outgoing graph)

/-- **The states that are met by expanding some states**, in the order in which they are met. -/
def found (graph : G) (expanded : List Image) : List Image :=
  (met graph expanded).eraseDups

/-- **The first states in the order of discovery**, so many of them or all if there are fewer: each
is met by expanding those before it. -/
def breadthFirst (graph : G) : Nat → List Image
  | 0 => []
  | count + 1 => (found graph (breadthFirst graph count)).take (count + 1)

theorem met_concat (graph : G) (expanded : List Image) (state : Image) :
    met graph (expanded ++ [state]) = met graph expanded ++ outgoing graph state := by
  simp [met]

/-- What is met by expanding reachable states is reachable. -/
theorem reachable_of_mem_found {graph : G} {expanded : List Image}
    (reachable : ∀ state ∈ expanded, Reachable graph state) :
    ∀ state ∈ found graph expanded, Reachable graph state := by
  intro state member
  rw [found, List.mem_eraseDups, met, List.mem_append, List.mem_flatMap] at member
  rcases member with first | ⟨before, inside, target⟩
  · unfold starts at first
    cases begins : initial graph with
    | error failure =>
      rw [begins] at first
      cases first
    | ok start =>
      rw [begins] at first
      rw [List.mem_singleton.mp first]
      exact .start begins
  · cases expands : next graph before with
    | error failure => simp [outgoing, expands] at target
    | ok targets =>
      rw [outgoing_eq expands] at target
      exact (reachable before inside).step ⟨targets, expands, target⟩

/-- By expanding more states one meets more of them, after those met before. -/
theorem prefix_found (graph : G) {expanded more : List Image} (first : expanded <+: more) :
    found graph expanded <+: found graph more := by
  obtain ⟨rest, rfl⟩ := first
  have longer : met graph (expanded ++ rest)
      = met graph expanded ++ rest.flatMap (outgoing graph) := by simp [met]
  rw [found, found, longer, List.eraseDups_append]
  exact List.prefix_append _ _

/-- **The first states stay the first ones.** -/
theorem prefix_breadthFirst (graph : G) {few more : Nat} (le : few ≤ more) :
    breadthFirst graph few <+: breadthFirst graph more := by
  have next : ∀ count, breadthFirst graph count <+: breadthFirst graph (count + 1) := by
    intro count
    induction count with
    | zero => exact List.nil_prefix
    | succ count ih =>
      exact ((prefix_found graph ih).take _).trans
        (List.take_prefix_take_left (Nat.le_succ (count + 1)))
  induction le with
  | refl => exact List.prefix_refl _
  | step _ ih => exact ih.trans (next _)

/-- **The order of discovery lists the reachable states**, and no others. -/
theorem reachable_iff_mem_breadthFirst {graph : G} {state : Image} :
    Reachable graph state ↔ ∃ count, state ∈ breadthFirst graph count := by
  constructor
  · intro reachable
    refine reachable.induct (fun state => ∃ count, state ∈ breadthFirst graph count)
      (fun first begins => ⟨1, ?_⟩) fun before target _ known edge => ?_
    · simp [breadthFirst, found, met, starts, begins, List.eraseDups_cons]
    · obtain ⟨count, member⟩ := known
      obtain ⟨targets, expands, inside⟩ := edge
      have listed : target ∈ found graph (breadthFirst graph count) := by
        rw [found, List.mem_eraseDups, met, List.mem_append, List.mem_flatMap]
        exact .inr ⟨before, member, by rwa [outgoing_eq expands]⟩
      -- the place of the target stays the same while more states are expanded
      obtain ⟨place, listed⟩ := List.mem_iff_getElem?.mp listed
      obtain ⟨rest, later⟩ :=
        prefix_found graph (prefix_breadthFirst graph (Nat.le_max_left count place))
      refine ⟨max count place + 1, List.mem_iff_getElem?.mpr ⟨place, ?_⟩⟩
      rw [breadthFirst, List.getElem?_take_of_lt (by omega), ← later,
        List.getElem?_append_left (List.getElem?_eq_some_iff.mp listed).1, listed]
  · rintro ⟨count, member⟩
    induction count generalizing state with
    | zero => cases member
    | succ count ih =>
      exact reachable_of_mem_found (fun _ inside => ih inside) state (List.mem_of_mem_take member)

end Explorable

namespace Search

/-! ### Following edges under a ceiling -/

/-- **A search has discovered the first of the states that it met**, as many as a ceiling admits,
and it knows whether there were more. -/
structure Lists (ceiling : Nat) (states : List Image) (search : Search G) : Prop where
  discovered : search.discovered.toList = states.eraseDups.take (max ceiling 1)
  truncated : search.report.truncated = decide (max ceiling 1 < states.eraseDups.length)

variable {ceiling : Nat} {states : List Image} {search : Search G}

omit [Explorable G] in
/-- **Following an edge**, where the table knows the discovered states. -/
theorem Lists.follow (lists : Lists ceiling states search) (nonempty : states ≠ []) {target : Image}
    (contains : search.visited.contains target = true ↔ target ∈ search.discovered.toList) :
    Lists ceiling (states ++ [target]) (follow ⟨some ceiling⟩ search target) := by
  obtain ⟨discovered, truncated⟩ := lists
  have positive : 0 < states.eraseDups.length :=
    List.length_pos_of_mem (List.mem_eraseDups.mpr (List.head_mem nonempty))
  have full : search.isFull ⟨some ceiling⟩ = true ↔ max ceiling 1 ≤ states.eraseDups.length := by
    show decide (ceiling ≤ search.discovered.size) = true ↔ _
    rw [decide_eq_true_iff, ← Array.length_toList, discovered, List.length_take]
    omega
  rw [discovered] at contains
  unfold Search.follow
  by_cases member : search.visited.contains target = true
  · have old : target ∈ states := List.mem_eraseDups.mp (List.mem_of_mem_take (contains.mp member))
    rw [if_pos member]
    refine ⟨?_, ?_⟩
    · simpa [eraseDups_concat, old] using discovered
    · simpa [eraseDups_concat, old] using truncated
  · have unknown : target ∉ states.eraseDups.take (max ceiling 1) := fun old =>
      member (contains.mpr old)
    rw [if_neg member]
    by_cases reached : max ceiling 1 ≤ states.eraseDups.length
    · -- a target that is not among the first is one more state, wherever it occurred before
      have more : max ceiling 1 < (states ++ [target]).eraseDups.length := by
        rw [eraseDups_concat]
        by_cases old : target ∈ states
        · refine Nat.lt_of_not_le fun short => unknown ?_
          rw [if_pos old, List.append_nil] at short
          rw [List.take_of_length_le short]
          exact List.mem_eraseDups.mpr old
        · rw [if_neg old, List.length_append, List.length_singleton]
          omega
      rw [if_pos (full.mpr reached)]
      refine ⟨?_, (decide_eq_true more).symm⟩
      show search.discovered.toList = _
      rw [discovered, eraseDups_concat, List.take_append_of_le_length reached]
    · have all : states.eraseDups.take (max ceiling 1) = states.eraseDups :=
        List.take_of_length_le (Nat.le_of_not_le reached)
      have new : target ∉ states := by
        rw [all, List.mem_eraseDups] at unknown
        exact unknown
      have longer : (states ++ [target]).eraseDups = states.eraseDups ++ [target] := by
        rw [eraseDups_concat, if_neg new]
      have fits : (states.eraseDups ++ [target]).length ≤ max ceiling 1 := by
        rw [List.length_append, List.length_singleton]
        omega
      rw [if_neg fun isFull => reached (full.mp isFull)]
      refine ⟨?_, ?_⟩
      · show (search.discovered.push target).toList = _
        rw [Array.toList_push, discovered, all, longer, List.take_of_length_le fits]
      · show search.report.truncated = _
        rw [truncated, longer]
        exact decide_eq_decide.mpr (by omega)

omit [Explorable G] in
/-- **Following some edges**, one after the other. -/
theorem Lists.foldl_follow {known : Image → Prop} (apart : Apart known) (targets : List Image)
    (knownTargets : ∀ target ∈ targets, known target) (tabled : Tabled known search)
    (lists : Lists ceiling states search) (nonempty : states ≠ []) :
    Lists ceiling (states ++ targets) (targets.foldl (Search.follow ⟨some ceiling⟩) search) := by
  induction targets generalizing search states with
  | nil => simpa using lists
  | cons target rest ih =>
    have knownTarget := knownTargets target List.mem_cons_self
    have knownRest : ∀ state ∈ rest, known state := fun state member =>
      knownTargets state (List.mem_cons_of_mem _ member)
    have tabled' := (follow_spec apart ⟨some ceiling⟩ tabled knownTarget).2
    have later := ih knownRest tabled'
      (lists.follow nonempty (tabled.contains_iff target knownTarget)) (by simp)
    simpa using later

/-! ### The invariant of a search with a ceiling -/

/-- **The invariant of a search with a ceiling.** -/
structure Capped (graph : G) (ceiling : Nat) (search : Search G) : Prop where
  sound : Sound graph ⟨some ceiling⟩ search
  lists : Lists ceiling (met graph search.looked) search
  looked : search.looked = breadthFirst graph search.report.states

variable {graph : G}

theorem capped_start {state : Image} (apart : Apart (Reachable graph)) (ceiling : Nat)
    (begins : initial graph = .ok state) : Capped graph ceiling (start graph state) where
  sound := sound_start apart _ begins
  lists := by
    have single : met graph (start graph state).looked = [state] := by
      simp [met, starts, begins, Search.looked, start]
    have alone : [state].eraseDups = [state] := by simp [List.eraseDups_cons]
    have fits : [state].length ≤ max ceiling 1 := Nat.le_max_right _ _
    rw [single]
    refine ⟨?_, ?_⟩
    · rw [alone, List.take_of_length_le fits]
      rfl
    · rw [alone]
      exact (decide_eq_false (Nat.not_lt.mpr fits)).symm
  looked := by simp [Search.looked, start, breadthFirst]

namespace Capped

theorem met_ne_nil (capped : Capped graph ceiling search) {state : Image}
    (found : search.discovered[search.report.states]? = some state) :
    met graph search.looked ≠ [] := by
  intro none
  have member := mem_discovered found
  rw [capped.lists.discovered, none] at member
  simp at member

/-- The next state is the next one in the order of discovery. -/
theorem looked_concat (capped : Capped graph ceiling search) {state : Image}
    (found : search.discovered[search.report.states]? = some state) :
    search.looked ++ [state] = breadthFirst graph (search.report.states + 1) := by
  have inside : search.report.states + 1 ≤ max ceiling 1 := by
    rw [← Array.getElem?_toList] at found
    have inside := (List.getElem?_eq_some_iff.mp found).1
    rw [capped.lists.discovered, List.length_take] at inside
    omega
  rw [← looked_looking found, breadthFirst, ← capped.looked]
  show search.discovered.toList.take (search.report.states + 1) = _
  rw [capped.lists.discovered, List.take_take, Nat.min_eq_left inside]
  rfl

/-- **Looking at one more state keeps the invariant.** -/
theorem arrive (capped : Capped graph ceiling search) (steady : Steady graph)
    (apart : Apart (Reachable graph)) {state : Image} {targets : List Image}
    (found : search.discovered[search.report.states]? = some state)
    (expands : next search.graph state = .ok targets) :
    Capped graph ceiling
      (targets.foldl (Search.follow ⟨some ceiling⟩) (search.arrived state targets)) := by
  have sound := capped.sound
  have expands' := (sound.next_graph steady found).symm.trans expands
  obtain ⟨later, looked⟩ := sound.arrive steady apart found expands'
  have reachable := sound.reachable state (mem_discovered found)
  have lists : Lists ceiling (met graph search.looked) (search.arrived state targets) :=
    ⟨capped.lists.discovered, capped.lists.truncated⟩
  refine ⟨later, ?_, ?_⟩
  · rw [looked, met_concat, outgoing_eq expands']
    exact lists.foldl_follow apart targets
      (fun target member => reachable.step ⟨targets, expands', member⟩)
      ⟨sound.tabled.nodup, sound.tabled.contains_iff⟩ (capped.met_ne_nil found)
  · have states := (foldl_follow_grown ⟨some ceiling⟩ targets (search.arrived state targets)).2.1
    rw [looked, states]
    exact capped.looked_concat found

/-- No more states are looked at than the ceiling admits. -/
theorem states_le (capped : Capped graph ceiling search) :
    search.report.states ≤ max ceiling 1 := by
  have fewer : search.looked.length ≤ search.discovered.toList.length :=
    (List.take_sublist _ _).length_le
  rw [capped.lists.discovered, List.length_take] at fewer
  rw [capped.sound.tallies.states]
  omega

end Capped

end Search

/-! ### What such a search reports -/

/-- **A report under a ceiling**: of the states that are looked at, how many they are, whether there
are more, and which of them have no successors. -/
structure Report.Capped (graph : G) (ceiling : Nat) (looked : List Image) (report : Report) :
    Prop where
  states : (report.states : ℕ∞) = min {state | Reachable graph state}.encard ↑(max ceiling 1)
  truncated : report.truncated = true ↔ ↑(max ceiling 1) < {state | Reachable graph state}.encard
  first : looked = breadthFirst graph report.states
  length : looked.length = report.states
  nodup : looked.Nodup
  reachable : ∀ state ∈ looked, Reachable graph state
  ordered : looked.Pairwise fun first second => distance graph first ≤ distance graph second
  mem_deadlocks : ∀ state,
    state ∈ report.deadlocks.toList ↔ state ∈ looked ∧ next graph state = .ok []
  nodup_deadlocks : report.deadlocks.toList.Nodup

/-- Different reachable states are no more than there are. -/
theorem length_le_encard {graph : G} {states : List Image} (nodup : states.Nodup)
    (reachable : ∀ state ∈ states, Reachable graph state) :
    (states.length : ℕ∞) ≤ {state | Reachable graph state}.encard := by
  rw [← List.toFinset_card_of_nodup nodup, ← Set.encard_coe_eq_coe_finsetCard, List.coe_toFinset]
  exact Set.encard_le_encard reachable

namespace Search.Capped

variable {graph : G} {ceiling : Nat} {search : Search G}

/-- **How many states there are**, when no state is left to look at: those that were looked at, or
more than the ceiling admits. -/
theorem encard_cases (capped : Capped graph ceiling search)
    (all : search.looked = search.discovered.toList) :
    search.report.truncated = false ∧ search.report.states ≤ max ceiling 1 ∧
        {state | Reachable graph state}.encard = search.report.states ∨
      search.report.truncated = true ∧ search.report.states = max ceiling 1 ∧
        ↑(max ceiling 1) < {state | Reachable graph state}.encard := by
  have sound := capped.sound
  have nodup : search.looked.Nodup := sound.tabled.nodup.sublist (List.take_sublist _ _)
  have reachable : ∀ state ∈ search.looked, Reachable graph state := fun state member =>
    sound.reachable state (looked_subset member)
  by_cases more : max ceiling 1 < (found graph search.looked).length
  · refine .inr ⟨capped.lists.truncated.trans (decide_eq_true more), ?_, ?_⟩
    · rw [sound.tallies.states, all, capped.lists.discovered, List.length_take]
      exact Nat.min_eq_left (Nat.le_of_lt more)
    · refine lt_of_lt_of_le (Nat.cast_lt.mpr more) ?_
      exact length_le_encard (nodup_eraseDups _) (reachable_of_mem_found reachable)
  · have room := capped.lists.truncated.trans (decide_eq_false more)
    have same : {state | Reachable graph state} = (search.looked.toFinset : Set Image) := by
      ext state
      rw [List.coe_toFinset]
      exact sound.reachable_iff all room
    refine .inl ⟨room, capped.states_le, ?_⟩
    rw [same, Set.encard_coe_eq_coe_finsetCard, List.toFinset_card_of_nodup nodup,
      sound.tallies.states]

/-- **The report when no state is left to look at.** -/
theorem report (capped : Capped graph ceiling search)
    (all : search.looked = search.discovered.toList) :
    search.report.Capped graph ceiling search.looked := by
  have sound := capped.sound
  have nodup : search.looked.Nodup := sound.tabled.nodup.sublist (List.take_sublist _ _)
  refine
    { states := ?states
      truncated := ?truncated
      first := capped.looked
      length := sound.tallies.states.symm
      nodup := nodup
      reachable := fun state member => sound.reachable state (looked_subset member)
      ordered := all ▸ sound.ordered
      mem_deadlocks := fun state => ?deadlocks
      nodup_deadlocks := ?once }
  case states =>
    rcases capped.encard_cases all with ⟨_, few, count⟩ | ⟨_, most, more⟩
    · rw [count]
      exact (min_eq_left (Nat.cast_le.mpr few)).symm
    · rw [most]
      exact (min_eq_right (le_of_lt more)).symm
  case truncated =>
    rcases capped.encard_cases all with ⟨room, few, count⟩ | ⟨full, _, more⟩
    · rw [room, count, Nat.cast_lt]
      exact iff_of_false Bool.false_ne_true (Nat.not_lt.mpr few)
    · exact ⟨fun _ => more, fun _ => full⟩
  case deadlocks => rw [sound.tallies.deadlocks, List.mem_filter, isDeadlock_iff]
  case once =>
    rw [sound.tallies.deadlocks]
    exact nodup.filter _

end Search.Capped

/-- **A search with a ceiling of a graph without memory** ends, it succeeds if the graph does not
fail in a state that is looked at, and then its report is the one under the ceiling. -/
theorem exists_explore_capped {graph : G} (functional : Functional graph)
    (apart : Search.Apart (Reachable graph)) (ceiling : Nat) :
    ∃ outcome : Outcome G,
      explore (max ceiling 1) graph ⟨some ceiling⟩ (fun _ _ => false) = some outcome ∧
      ((∃ report, outcome.result = .ok report) ↔ (∃ start, initial graph = .ok start) ∧
        ∀ state ∈ outcome.looked, ∃ targets, next graph state = .ok targets) ∧
      ∀ report, outcome.result = .ok report → report.Capped graph ceiling outcome.looked := by
  have steady := functional.steady
  obtain ⟨outcome, explored⟩ := exists_explore_of_le ⟨some ceiling⟩ (fun _ _ => false)
    (fun capped found _ expands => capped.arrive steady apart found expands)
    (Search.capped_start apart ceiling) Search.Capped.states_le (Nat.le_refl _)
  refine ⟨outcome, explored, ?_⟩
  rcases explore_induct
      (fun capped found _ expands => capped.arrive steady apart found expands)
      (Search.capped_start apart ceiling) explored with
    ⟨failure, begins, rfl⟩ | ⟨start, last, begins, capped, _, ended, _⟩
  · simp [begins]
  · have sound := capped.sound
    cases Search.ending_of_advance ended with
    | exhausted missing =>
      have all := Search.looked_eq_of_none missing
      refine ⟨iff_of_true ⟨_, rfl⟩ ⟨⟨start, begins⟩, sound.expanded⟩, ?_⟩
      rintro _ ⟨⟩
      exact capped.report all
    | stopped found stops => cases stops
    | @failed state failure found goes fails =>
      refine ⟨iff_of_false ?_ ?_, ?_⟩
      · rintro ⟨report, ⟨⟩⟩
      · rintro ⟨_, expands⟩
        have member : state ∈ last.looking.looked := by
          rw [Search.looked_looking found]
          exact List.mem_append_right _ (List.mem_singleton.mpr rfl)
        obtain ⟨targets, succeeds⟩ := expands state member
        rw [← sound.next_graph steady found, fails] at succeeds
        cases succeeds
      · rintro _ ⟨⟩

/-! ### Graphs that remember -/

theorem Frozen.breadthFirst_eq (graph : G) (count : Nat) :
    breadthFirst (Frozen.mk graph) count = breadthFirst graph count := by
  induction count with
  | zero => rfl
  | succ count ih =>
    rw [breadthFirst, breadthFirst, ih]
    rfl

/-- What is reported of the graph that forgets is true of the graph, however many states accept. -/
theorem Report.Capped.of_frozen {graph : G} {ceiling : Nat} {looked : List Image}
    {report report' : Report} (capped : report.Capped (Frozen.mk graph) ceiling looked)
    (same : report'.unmarked = report.unmarked) : report'.Capped graph ceiling looked := by
  have reachable := Frozen.reachable_eq graph
  have states : report'.states = report.states := congrArg (·.states) same
  have truncated : report'.truncated = report.truncated := congrArg (·.truncated) same
  have deadlocks : report'.deadlocks = report.deadlocks := congrArg (·.deadlocks) same
  exact
    { states := by
        rw [states, ← reachable]
        exact capped.states
      truncated := by
        rw [truncated, ← reachable]
        exact capped.truncated
      first := by
        rw [states, ← Frozen.breadthFirst_eq]
        exact capped.first
      length := by rw [states, capped.length]
      nodup := capped.nodup
      reachable := by
        rw [← reachable]
        exact capped.reachable
      ordered := by
        rw [← Frozen.distance_eq]
        exact capped.ordered
      mem_deadlocks := by
        rw [deadlocks]
        exact capped.mem_deadlocks
      nodup_deadlocks := by
        rw [deadlocks]
        exact capped.nodup_deadlocks }

/-- **Searches with a ceiling.** Take a graph in which the successors of a state depend on the state
alone and whose reachable states, finitely many or not, are of one length. The search without a
state to stop at ends, with any bound from the ceiling on. It succeeds exactly if there is a state
to start from and the expansion of no state that it looks at fails. Then it looks at the first
states in the order of discovery, each once: all that there are, or as many as the ceiling admits,
which is one at least. It reports that it was cut short exactly if there are more, and the states
without successors among those that it looked at, each once. -/
theorem explore_ceiling (graph : G) (determined : Determined graph)
    (length : ∀ first second, Reachable graph first → Reachable graph second →
      first.size = second.size) (ceiling : Nat) :
    ∃ outcome : Outcome G,
      (∀ bound, max ceiling 1 ≤ bound →
        explore bound graph ⟨some ceiling⟩ (fun _ _ => false) = some outcome) ∧
      ((∃ report, outcome.result = .ok report) ↔ (∃ start, initial graph = .ok start) ∧
        ∀ state ∈ outcome.looked, ∃ targets, next graph state = .ok targets) ∧
      ∀ report, outcome.result = .ok report → report.Capped graph ceiling outcome.looked := by
  have apart : Search.Apart (Reachable (Frozen.mk graph)) := by
    rw [Frozen.reachable_eq]
    exact .of_size length
  obtain ⟨frozen, explored, succeeds, capped⟩ :=
    exists_explore_capped (Frozen.functional (Frozen.mk graph)) apart ceiling
  obtain ⟨outcome, explored', same⟩ := explore_of_frozen determined explored
  refine ⟨outcome, fun bound le => explore_mono explored' le, ?_, fun report succeeded => ?_⟩
  · rw [same.looked]
    refine Iff.trans ⟨?_, ?_⟩ succeeds
    · rintro ⟨report, succeeded⟩
      obtain ⟨report', succeeded', _⟩ := same.exists_ok_of_second succeeded
      exact ⟨report', succeeded'⟩
    · rintro ⟨report, succeeded⟩
      obtain ⟨report', succeeded', _⟩ := same.exists_ok succeeded
      exact ⟨report', succeeded'⟩
  · obtain ⟨report', succeeded', alike⟩ := same.exists_ok_of_second succeeded
    rw [same.looked]
    exact (capped report' succeeded').of_frozen alike.symm

/-! ### A graph with two ways -/

/-- The states of a listed graph are of one length if the listed ones are. -/
theorem Listed.size_of_reachable {graph : Listed} {size : Nat}
    (starts : ∀ bytes ∈ graph.initial, bytes.length = size)
    (listed : ∀ edge ∈ graph.edges, ∀ target ∈ edge.2, target.length = size) {state : Image}
    (reachable : Reachable graph state) : state.size = size := by
  refine reachable.induct (fun state => state.size = size) (fun first begins => ?_)
    fun before target _ _ edge => ?_
  · obtain ⟨given, edges, failing⟩ := graph
    cases given with
    | none => cases begins
    | some bytes =>
      cases begins
      exact starts bytes rfl
  · obtain ⟨targets, expands, member⟩ := edge
    have expands : graph.expand before = .ok targets := expands
    unfold expand at expands
    split at expands
    · cases expands
    · cases expands
      unfold Listed.targets at member
      split at member
      · next source listing chosen =>
        obtain ⟨bytes, inside, rfl⟩ := List.mem_map.mp member
        exact listed _ (List.mem_reverse.mp (List.mem_of_find?_eq_some chosen)) bytes inside
      · cases member

/-- Two ways of different length lead away from the initial state. -/
def twoWays : Listed where
  initial := some [0]
  edges := [([0], [[1], [2]]), ([1], [[3]]), ([2], [[4], [1]]), ([4], [[5]])]
  failing := []

theorem size_of_reachable_twoWays {state : Image} (reachable : Reachable twoWays state) :
    state.size = 1 := by
  refine Listed.size_of_reachable ?_ (by decide) reachable
  rintro _ ⟨⟩
  rfl

/-- With a ceiling of four states, the end of the shorter way is found and that of the longer one is
not. -/
theorem explore_ceiling_twoWays :
    ∃ outcome report, explore 4 twoWays ⟨some 4⟩ (fun _ _ => false) = some outcome ∧
      outcome.result = .ok report ∧ report.Capped twoWays 4 outcome.looked ∧
      outcome.looked = [.ofBytes [0], .ofBytes [1], .ofBytes [2], .ofBytes [3]] ∧
      report.truncated = true ∧ report.deadlocks.toList = [.ofBytes [3]] := by
  obtain ⟨outcome, ends, _, capped⟩ :=
    explore_ceiling twoWays (Listed.functional twoWays).successors
      (fun first second reachable reachable' => (size_of_reachable_twoWays reachable).trans
        (size_of_reachable_twoWays reachable').symm) 4
  have explored := ends 4 (Nat.le_refl 4)
  have found : (explore 4 twoWays ⟨some 4⟩ (fun _ _ => false)).map
      (fun outcome => (outcome.result, outcome.looked))
        = some (.ok ⟨4, 5, #[.ofBytes [3]], 0, true, none⟩,
            [.ofBytes [0], .ofBytes [1], .ofBytes [2], .ofBytes [3]]) := by decide
  rw [explored, Option.map_some, Option.some.injEq, Prod.mk.injEq] at found
  obtain ⟨succeeded, looked⟩ := found
  exact ⟨outcome, _, explored, succeeded, capped _ succeeded, looked, rfl, rfl⟩

end StateSpace

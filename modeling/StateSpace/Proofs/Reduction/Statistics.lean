/-
**What a reduced graph remembers.**

A reduced graph keeps statistics of the states that it was asked for, and nothing else. They are 64
bits wide, so it answers alike all through a search, unless one of them overflows.

* `Interpreter.Countable` — states that have room in the statistics: there are fewer than `2 ^ 64`
  of them, and fewer than `2 ^ 64` transitions are enabled in them, all told.
* `Interpreted.LeavesOut` — a transition is enabled in a state of a graph and does not fire.
* `Interpreted.Tame` — a new reduced graph whose interpreter breaks off nowhere among certain
  states.
* `Interpreted.Tame.expand_withStats`, `Interpreted.Tame.next_of_overflow` — one call: the kept
  transitions fire and the statistics grow, or these overflow.
* `Interpreted.Tame.explore_lockstep` — a whole search ends like one on any graph without memory
  that fires the kept transitions, or it breaks off at states that are not countable.
* `Interpreted.Tame.exists_explore` — in particular it looks at different reachable states, and ends
  with a verdict on its own graph.
-/

import StateSpace.Proofs.Reduction.Kept
import StateSpace.Proofs.Search.Outcomes

namespace StateSpace

open Explorable

/-! ### Recording a state -/

/-- A record succeeds unless a counter has no room. -/
theorem Stats.record_cases (stats : Stats) (reduced enabled : Nat) :
    (∃ later, stats.record reduced enabled = .ok later ∧ later.states = stats.states + 1 ∧
      later.reduced = stats.reduced + reduced ∧ later.enabled = stats.enabled + enabled) ∨
    stats.record reduced enabled = .error .overflow ∧
      (UInt64.size ≤ stats.states + 1 ∨ UInt64.size ≤ stats.reduced + reduced ∨
        UInt64.size ≤ stats.enabled + enabled) := by
  have spec := stats.record_spec reduced enabled
  cases recorded : stats.record reduced enabled with
  | ok later =>
    rw [recorded] at spec
    exact .inl ⟨later, rfl, spec.2.1, spec.2.2.1, spec.2.2.2.1⟩
  | error abort =>
    rw [recorded] at spec
    exact .inr ⟨congrArg _ spec.1, spec.2⟩

/-! ### States that can be counted -/

namespace Interpreter

/-- The transitions enabled in a state, none if that cannot be told. -/
def enabledList (i : Interpreter) (state : Image) : List Nat :=
  match i.enabled state.bytes with
  | .ok enabled => enabled
  | .error _ => []

theorem enabledList_eq {i : Interpreter} {state : Image} {enabled : List Nat}
    (fires : i.enabled state.bytes = .ok enabled) : i.enabledList state = enabled := by
  unfold enabledList
  rw [fires]

/-- **The statistics have room for some states.** -/
def Countable (i : Interpreter) (states : List Image) : Prop :=
  states.length < UInt64.size ∧
    (states.map fun state => (i.enabledList state).length).sum < UInt64.size

instance (i : Interpreter) (states : List Image) : Decidable (i.Countable states) :=
  inferInstanceAs (Decidable (_ ∧ _))

theorem Countable.of_prefix {i : Interpreter} {states more : List Image}
    (countable : i.Countable more) (first : states <+: more) : i.Countable states := by
  obtain ⟨rest, rfl⟩ := first
  obtain ⟨few, fewEnabled⟩ := countable
  rw [List.length_append] at few
  rw [List.map_append, List.sum_append] at fewEnabled
  exact ⟨by omega, by omega⟩

/-- There is room for different ones of some states that there is room for. -/
theorem Countable.of_subset {i : Interpreter} {states more : List Image}
    (countable : i.Countable more) (nodup : states.Nodup) (inside : states ⊆ more) :
    i.Countable states := by
  obtain ⟨few, fewEnabled⟩ := countable
  obtain ⟨among, same, sublist⟩ := List.subperm_of_subset nodup inside
  refine ⟨Nat.lt_of_le_of_lt (same.length_eq ▸ sublist.length_le) few,
    Nat.lt_of_le_of_lt ?_ fewEnabled⟩
  rw [← (same.map fun state => (i.enabledList state).length).sum_eq]
  exact (sublist.map _).sum_le_sum fun _ _ => Nat.zero_le _

end Interpreter

/-! ### One call -/

namespace Interpreted

/-- The graph with other statistics. -/
def withStats (g : Interpreted) (stats : Stats) : Interpreted :=
  { g with reducer := g.reducer.map fun r => { r with stats := stats } }

/-- The transitions that a reducer keeps in a state. -/
def keptList (g : Interpreted) (r : Reducer) (state : Image) : List Nat :=
  kept (g.interpreter.enabledList state)
    (r.flags (g.interpreter.enabledList state) (g.oracle state))

/-- The transitions that fire in a state. -/
def fired (g : Interpreted) (state : Image) : List Nat :=
  match g.chosen state with
  | .ok (transitions, _) => transitions
  | .error _ => []

/-- A transition is enabled in a state and does not fire. -/
def LeavesOut (g : Interpreted) (t : Nat) (state : Image) : Prop :=
  t ∈ g.interpreter.enabledList state ∧ t ∉ g.fired state

instance (g : Interpreted) (t : Nat) (state : Image) : Decidable (g.LeavesOut t state) :=
  inferInstanceAs (Decidable (_ ∧ _))

/-- **A reduced graph that was not asked yet**, and states about which its interpreter answers. -/
structure Tame (g : Interpreted) (r : Reducer) (known : Image → Prop) : Prop where
  reduces : g.reducer = some r
  fresh : r.stats = .initial
  enabled : ∀ {state : Image}, known state →
    g.interpreter.enabled state.bytes = .ok (g.interpreter.enabledList state)
  inside : ∀ {state : Image}, known state →
    ∀ t ∈ g.interpreter.enabledList state, t < r.transitionCount
  few : ∀ {state : Image}, known state →
    (g.interpreter.enabledList state).length < UInt64.size
  readable : ∀ {state : Image}, known state →
    ∀ guard, ∃ answer, g.interpreter.guardHolds state.bytes guard = .ok answer

namespace Tame

variable {g : Interpreted} {r : Reducer} {known : Image → Prop} {state : Image}
  {stats later : Stats}

theorem reducer_withStats (tame : g.Tame r known) (stats : Stats) :
    (g.withStats stats).reducer = some { r with stats := stats } := by
  show g.reducer.map _ = _
  rw [tame.reduces]
  rfl

theorem withStats_initial (tame : g.Tame r known) : g.withStats .initial = g := by
  obtain ⟨interpreter, policy, reducer⟩ := g
  have reduces : reducer = some r := tame.reduces
  subst reduces
  unfold withStats
  rw [← tame.fresh]
  rfl

theorem flags_withStats (g : Interpreted) (r : Reducer) (stats : Stats) (state : Image) :
    ({ r with stats := stats } : Reducer).flags (g.interpreter.enabledList state)
        ((g.withStats stats).oracle state)
      = r.flags (g.interpreter.enabledList state) (g.oracle state) :=
  Reducer.flags_stats _ _ _ _

/-- **The kept transitions are chosen**, and the state is recorded. -/
theorem chosen_withStats (tame : g.Tame r known) (isKnown : known state)
    (recorded : stats.record
      ((r.flags (g.interpreter.enabledList state) (g.oracle state)).count true)
      (g.interpreter.enabledList state).length = .ok later) :
    (g.withStats stats).chosen state
      = .ok (g.keptList r state, some { r with stats := later }) := by
  have flags := flags_withStats g r stats state
  rw [chosen_of_record (tame.reducer_withStats stats) (tame.enabled isKnown) (tame.inside isKnown)
    (by rw [flags]; exact recorded) (tame.readable isKnown), flags]
  rfl

/-- They fire. -/
theorem expand_withStats (tame : g.Tame r known) (isKnown : known state)
    (recorded : stats.record
      ((r.flags (g.interpreter.enabledList state) (g.oracle state)).count true)
      (g.interpreter.enabledList state).length = .ok later) :
    (g.withStats stats).expand state
      = (g.interpreter.execute g.policy state (g.keptList r state), g.withStats later) := by
  have graph : ({ g.withStats stats with reducer := some { r with stats := later } } : Interpreted)
      = g.withStats later := by
    unfold withStats
    rw [tame.reduces]
    rfl
  rw [expand, tame.chosen_withStats isKnown recorded, ← graph]
  rfl

/-- **Nothing is chosen** if the statistics overflow. -/
theorem chosen_of_overflow (tame : g.Tame r known) (isKnown : known state)
    (full : stats.record
      ((r.flags (g.interpreter.enabledList state) (g.oracle state)).count true)
      (g.interpreter.enabledList state).length = .error .overflow) :
    (g.withStats stats).chosen state = .error (.abort .overflow) := by
  have flags := flags_withStats g r stats state
  have inside : ∀ t ∈ g.interpreter.enabledList state,
      t < ({ r with stats := stats } : Reducer).transitionCount := tame.inside isKnown
  have reduces : ({ r with stats := stats } : Reducer).reduce (g.interpreter.enabledList state)
      ((g.withStats stats).oracle state) = .error (.abort .overflow) := by
    rw [Reducer.reduce_eq inside, flags, full]
    rfl
  have enabled : (g.withStats stats).interpreter.enabled state.bytes
      = .ok (g.interpreter.enabledList state) := tame.enabled isKnown
  unfold chosen
  simp only [enabled, tame.reducer_withStats stats, orAbort, bind, Except.bind, reduces]

theorem next_of_overflow (tame : g.Tame r known) (isKnown : known state)
    (full : stats.record
      ((r.flags (g.interpreter.enabledList state) (g.oracle state)).count true)
      (g.interpreter.enabledList state).length = .error .overflow) :
    next (g.withStats stats) state = .error (.abort .overflow) := by
  show (((g.withStats stats).expand state).1).map Expansion.states = _
  rw [expand, tame.chosen_of_overflow isKnown full]
  rfl

/-- No more transitions are kept than are enabled. -/
theorem count_flags_le (g : Interpreted) (r : Reducer) (state : Image) :
    (r.flags (g.interpreter.enabledList state) (g.oracle state)).count true
      ≤ (g.interpreter.enabledList state).length :=
  List.count_le_length.trans (Nat.le_of_eq (Reducer.length_flags _ _ _))

/-- A new graph has room for any one state. -/
theorem exists_record (tame : g.Tame r known) (isKnown : known state) :
    ∃ later, Stats.initial.record
      ((r.flags (g.interpreter.enabledList state) (g.oracle state)).count true)
      (g.interpreter.enabledList state).length = .ok later := by
  have few : Stats.initial.enabled + (g.interpreter.enabledList state).length < UInt64.size :=
    (Nat.zero_add _).symm ▸ tame.few isKnown
  have fewer : Stats.initial.reduced
      + (r.flags (g.interpreter.enabledList state) (g.oracle state)).count true < UInt64.size :=
    Nat.lt_of_le_of_lt (Nat.add_le_add_left (count_flags_le g r state) 0) few
  have one : Stats.initial.states + 1 < UInt64.size := by decide
  obtain ⟨later, recorded, _⟩ := Stats.exists_record one fewer few
  exact ⟨later, recorded⟩

theorem exists_chosen (tame : g.Tame r known) (isKnown : known state) :
    ∃ reducer, g.chosen state = .ok (g.keptList r state, reducer) := by
  obtain ⟨later, recorded⟩ := tame.exists_record isKnown
  have chosen := tame.chosen_withStats isKnown recorded
  rw [tame.withStats_initial] at chosen
  exact ⟨_, chosen⟩

theorem expand_eq (tame : g.Tame r known) (isKnown : known state) :
    (g.expand state).1 = g.interpreter.execute g.policy state (g.keptList r state) := by
  obtain ⟨later, recorded⟩ := tame.exists_record isKnown
  have expanded := tame.expand_withStats isKnown recorded
  rw [tame.withStats_initial] at expanded
  rw [expanded]

theorem next_eq (tame : g.Tame r known) (isKnown : known state) :
    next g state
      = (g.interpreter.execute g.policy state (g.keptList r state)).map Expansion.states := by
  show (g.expand state).1.map Expansion.states = _
  rw [tame.expand_eq isKnown]

/-! ### A whole search -/

/-- The statistics after some states count these and what is enabled in them. -/
structure Remembers (g : Interpreted) (asked : List Image) (stats : Stats) : Prop where
  states : stats.states = asked.length
  enabled : stats.enabled = (asked.map fun state => (g.interpreter.enabledList state).length).sum
  reduced : stats.reduced ≤ stats.enabled

theorem Remembers.push {asked : List Image} (remembers : Remembers g asked stats)
    (states : later.states = stats.states + 1)
    (reduced : later.reduced = stats.reduced
      + (r.flags (g.interpreter.enabledList state) (g.oracle state)).count true)
    (enabled : later.enabled = stats.enabled + (g.interpreter.enabledList state).length) :
    Remembers g (asked ++ [state]) later := by
  have fewer := count_flags_le g r state
  have less := remembers.reduced
  refine ⟨?_, ?_, by omega⟩
  · rw [states, remembers.states, List.length_append, List.length_singleton]
  · rw [enabled, remembers.enabled, List.map_append, List.sum_append, List.map_singleton,
      List.sum_singleton]

theorem Remembers.not_countable {asked : List Image} (remembers : Remembers g asked stats)
    (full : UInt64.size ≤ stats.states + 1 ∨
      UInt64.size ≤ stats.reduced
        + (r.flags (g.interpreter.enabledList state) (g.oracle state)).count true ∨
      UInt64.size ≤ stats.enabled + (g.interpreter.enabledList state).length) :
    ¬ g.interpreter.Countable (asked ++ [state]) := by
  rintro ⟨states, enabled⟩
  have fewer := count_flags_le g r state
  have less := remembers.reduced
  rw [List.length_append, List.length_singleton, ← remembers.states] at states
  rw [List.map_append, List.sum_append, List.map_singleton, List.sum_singleton,
    ← remembers.enabled] at enabled
  omega

variable {H : Type} [Explorable H] {graph : H}

theorem lockstep (tame : g.Tame r known)
    (fixed : ∀ state, (successors graph state).2 = graph)
    (accepts : ∀ state, known state →
      accepting graph state = g.interpreter.accepting state.bytes)
    (same : ∀ state, known state → next graph state
      = (g.interpreter.execute g.policy state (g.keptList r state)).map Expansion.states)
    (closed : ∀ state targets, known state → next graph state = .ok targets →
      ∀ target ∈ targets, known target) :
    Search.Lockstep known (fun states => ¬ g.interpreter.Countable states)
      fun asked first (second : H) => second = graph ∧
        ∃ stats, first = g.withStats stats ∧ Remembers g asked stats where
  accepting := by
    rintro asked _ _ state ⟨rfl, stats, rfl, _⟩ isKnown
    exact (accepts state isKnown).symm
  answers := by
    rintro asked _ _ state ⟨rfl, stats, rfl, remembers⟩ isKnown
    rcases stats.record_cases
        ((r.flags (g.interpreter.enabledList state) (g.oracle state)).count true)
        (g.interpreter.enabledList state).length with
      ⟨later, recorded, states, reduced, enabled⟩ | ⟨full, which⟩
    · have expanded := tame.expand_withStats isKnown recorded
      refine .inr ⟨?_, fixed state, later, ?_, remembers.push states reduced enabled⟩
      · rw [same state isKnown]
        show ((g.withStats stats).expand state).1.map Expansion.states = _
        rw [expanded]
      · show ((g.withStats stats).expand state).2 = _
        rw [expanded]
    · exact .inl ⟨tame.next_of_overflow isKnown full, remembers.not_countable which⟩
  closed := by
    rintro asked _ _ state targets ⟨rfl, _⟩ isKnown expands
    exact closed state targets isKnown expands

/-- **A search of a reduced graph ends like one without statistics**, unless these overflow. -/
theorem explore_lockstep (tame : g.Tame r known)
    (fixed : ∀ state, (successors graph state).2 = graph)
    (starts : initial graph = g.interpreter.initialImage)
    (accepts : ∀ state, known state →
      accepting graph state = g.interpreter.accepting state.bytes)
    (same : ∀ state, known state → next graph state
      = (g.interpreter.execute g.policy state (g.keptList r state)).map Expansion.states)
    (begins : ∀ state, g.interpreter.initialImage = .ok state → known state)
    (closed : ∀ state targets, known state → next graph state = .ok targets →
      ∀ target ∈ targets, known target) {bound : Nat} {limits : Limits}
    {done : Nat → Image → Bool} {outcome : Outcome H}
    (explored : explore bound graph limits done = some outcome) :
    ∃ outcome', explore bound g limits done = some outcome' ∧
      Search.EndsAlike (fun states => ¬ g.interpreter.Countable states) outcome' outcome := by
  refine StateSpace.explore_lockstep (tame.lockstep fixed accepts same closed)
    ⟨rfl, .initial, tame.withStats_initial.symm, rfl, rfl, Nat.le_refl _⟩ starts.symm
    (fun state first => begins state (starts.symm.trans first)) explored

/-- **A search without bounds ends with a verdict**, or at states that are not countable. The states
that it looks at are reachable, and each of them is looked at once. -/
theorem exists_explore (tame : g.Tame r known)
    (begins : ∀ state, g.interpreter.initialImage = .ok state → known state)
    (closed : ∀ state targets, known state → next g state = .ok targets →
      ∀ target ∈ targets, known target)
    (apart : Search.Apart (Reachable g)) (finite : {state | Reachable g state}.Finite) {bound : Nat}
    (enough : {state | Reachable g state}.ncard ≤ bound) :
    ∃ outcome, explore bound g {} (fun _ _ => false) = some outcome ∧
      (outcome.looked.Nodup ∧ ∀ state ∈ outcome.looked, Reachable g state) ∧
      (outcome.result = .error (.abort .overflow) ∧ ¬ g.interpreter.Countable outcome.looked ∨
        Verdict g outcome.result) := by
  -- the graph that forgets answers all through its search as this one does at first
  have functional := Frozen.functional (Frozen.mk g)
  rw [← Frozen.reachable_eq] at apart finite enough
  obtain ⟨outcome, ends⟩ := explore_ends functional.steady apart finite
  have explored := ends bound enough
  have same : ∀ state, known state → next (Frozen.mk g) state
      = (g.interpreter.execute g.policy state (g.keptList r state)).map Expansion.states :=
    fun state isKnown => tame.next_eq isKnown
  obtain ⟨outcome', ended, alike⟩ :=
    tame.explore_lockstep (fun _ => rfl) rfl (fun _ _ => rfl) same begins closed explored
  have faithful := alike.faithful
    (faithful_of_explore functional.steady apart explored _).of_frozen
  refine ⟨outcome', ended, ⟨faithful.nodup, faithful.reachable⟩, ?_⟩
  rcases alike with ⟨overflows, crowded, _⟩ | ⟨alike, _⟩
  · exact .inl ⟨overflows, crowded⟩
  · rw [alike]
    exact .inr (Frozen.verdict (verdict_of_explore functional apart explored))

end Tame

/-! ### Running a reduced search -/

/-- The result of a reduced search without bounds, and the states that it looked at. -/
def findings (i : Interpreter) (policy : Policy) (options : Options) (bound : Nat) :
    Option (Except Failure Report × List Image) :=
  (reduced i policy options).toOption.bind fun graph =>
    (explore bound graph {} fun _ _ => false).map fun outcome => (outcome.result, outcome.looked)

theorem findings_eq_some_iff {i : Interpreter} {policy : Policy} {options : Options} {bound : Nat}
    {found : Except Failure Report × List Image} :
    findings i policy options bound = some found ↔ ∃ graph outcome,
      reduced i policy options = .ok graph ∧
      explore bound graph {} (fun _ _ => false) = some outcome ∧
      (outcome.result, outcome.looked) = found := by
  unfold findings
  cases reduced i policy options with
  | error failure => simp [Except.toOption]
  | ok graph => simp [Except.toOption]

end Interpreted

end StateSpace

/-
**Which transitions a reduction keeps.**

* `Reducer.flags_eq_map` — the flags tell which entries are members of the set of the method, also
  for a single transition, which is kept without computing the set.
* `Interpreted.kept_flags_stubborn` — with stubborn sets the kept transitions are the enabled
  members of one stubborn set, whose seed is the least enabled transition.
* `Stats.exists_record`, `Reducer.reduce_eq` — a reduction succeeds as long as the statistics do not
  overflow, and it changes nothing else.
* `Interpreted.chosen_of_record` — what this means for the graph.
* `Interpreted.next_full` — without a reduction everything is kept.
-/

import StateSpace.Graph.Basic
import StateSpace.Proofs.Reduction.Stubborn
import StateSpace.Proofs.Search.Reachability

namespace StateSpace

/-- **What a record changes**, figure by figure. It succeeds exactly if the counters have room. -/
theorem Stats.record_spec (stats : Stats) (reduced enabled : Nat) :
    match stats.record reduced enabled with
    | .ok later =>
      (stats.states + 1 < UInt64.size ∧ stats.reduced + reduced < UInt64.size ∧
        stats.enabled + enabled < UInt64.size) ∧
      later.states = stats.states + 1 ∧ later.reduced = stats.reduced + reduced ∧
      later.enabled = stats.enabled + enabled ∧
      later.minReduced = Nat.min stats.minReduced reduced ∧
      later.maxReduced = Nat.max stats.maxReduced reduced ∧
      later.minEnabled = Nat.min stats.minEnabled enabled ∧
      later.maxEnabled = Nat.max stats.maxEnabled enabled
    | .error abort => abort = .overflow ∧
      (UInt64.size ≤ stats.states + 1 ∨ UInt64.size ≤ stats.reduced + reduced ∨
        UInt64.size ≤ stats.enabled + enabled) := by
  unfold record addWords
  by_cases states : stats.states + 1 < UInt64.size
  · by_cases reducedFits : stats.reduced + reduced < UInt64.size
    · by_cases enabledFits : stats.enabled + enabled < UInt64.size
      · rw [if_pos states, if_pos reducedFits, if_pos enabledFits]
        exact ⟨⟨states, reducedFits, enabledFits⟩, rfl, rfl, rfl, rfl, rfl, rfl, rfl⟩
      · rw [if_pos states, if_pos reducedFits, if_neg enabledFits]
        exact ⟨rfl, .inr (.inr (Nat.le_of_not_lt enabledFits))⟩
    · rw [if_pos states, if_neg reducedFits]
      exact ⟨rfl, .inr (.inl (Nat.le_of_not_lt reducedFits))⟩
  · rw [if_neg states]
    exact ⟨rfl, .inl (Nat.le_of_not_lt states)⟩

/-- **Recording a state** adds to the counters, unless one of them overflows. -/
theorem Stats.exists_record {stats : Stats} {reduced enabled : Nat}
    (states : stats.states + 1 < UInt64.size)
    (reducedFits : stats.reduced + reduced < UInt64.size)
    (enabledFits : stats.enabled + enabled < UInt64.size) :
    ∃ later, stats.record reduced enabled = .ok later ∧ later.states = stats.states + 1 ∧
      later.reduced = stats.reduced + reduced ∧ later.enabled = stats.enabled + enabled := by
  have spec := stats.record_spec reduced enabled
  cases recorded : stats.record reduced enabled with
  | ok later =>
    rw [recorded] at spec
    exact ⟨later, rfl, spec.2.1, spec.2.2.1, spec.2.2.2.1⟩
  | error abort =>
    rw [recorded] at spec
    have full := spec.2
    omega

namespace Reducer

theorem least_mem (first : Nat) (rest : List Nat) : least first rest ∈ first :: rest := by
  induction rest generalizing first with
  | nil => exact List.mem_singleton.mpr rfl
  | cons second rest ih =>
    have later : least first (second :: rest) ∈ Nat.min first second :: rest := ih _
    rcases List.mem_cons.mp later with same | inside
    · rw [same]
      rcases Nat.le_total first second with le | ge
      · rw [show Nat.min first second = first from Nat.min_eq_left le]
        exact List.mem_cons_self
      · rw [show Nat.min first second = second from Nat.min_eq_right ge]
        exact List.mem_cons_of_mem _ List.mem_cons_self
    · exact List.mem_cons_of_mem _ (List.mem_cons_of_mem _ inside)

theorem least_le (first : Nat) (rest : List Nat) : ∀ t ∈ first :: rest, least first rest ≤ t := by
  induction rest generalizing first with
  | nil =>
    intro t single
    exact Nat.le_of_eq (List.mem_singleton.mp single).symm
  | cons second rest ih =>
    have later : ∀ t ∈ Nat.min first second :: rest, least first (second :: rest) ≤ t := ih _
    have head := later _ List.mem_cons_self
    intro t member
    rcases List.mem_cons.mp member with rfl | member
    · exact head.trans (Nat.min_le_left _ _)
    · rcases List.mem_cons.mp member with rfl | member
      · exact head.trans (Nat.min_le_right _ _)
      · exact later t (List.mem_cons_of_mem _ member)

/-- The seed of a stubborn set: the least enabled transition. -/
def seedOf : List Nat → Nat
  | [] => 0
  | first :: rest => least first rest

theorem seedOf_mem {enabled : List Nat} {t : Nat} (member : t ∈ enabled) :
    seedOf enabled ∈ enabled := by
  cases enabled with
  | nil => cases member
  | cons first rest => exact least_mem first rest

theorem seedOf_le {enabled : List Nat} {t : Nat} (member : t ∈ enabled) : seedOf enabled ≤ t := by
  cases enabled with
  | nil => cases member
  | cons first rest => exact least_le first rest t member

/-- The seed is the one entry that no other undercuts. -/
theorem seedOf_eq {enabled : List Nat} {seed : Nat} (member : seed ∈ enabled)
    (lowest : ∀ t ∈ enabled, seed ≤ t) : seedOf enabled = seed :=
  Nat.le_antisymm (seedOf_le member) (lowest _ (seedOf_mem member))

variable {r : Reducer} {enabled : List Nat} {holds : Oracle}

theorem length_flags (r : Reducer) (enabled : List Nat) (holds : Oracle) :
    (r.flags enabled holds).length = enabled.length := by
  unfold flags
  split <;> simp

/-- Each entry is kept or not for its own sake. -/
theorem exists_flags_eq_map (r : Reducer) (enabled : List Nat) (holds : Oracle) :
    ∃ keeps : Nat → Bool, r.flags enabled holds = enabled.map keeps := by
  unfold flags
  split
  · exact ⟨fun _ => true, rfl⟩
  · exact ⟨fun _ => true, rfl⟩
  · exact ⟨_, rfl⟩

/-- The flags are those of the members, if these hold a transition that stands alone. -/
theorem flags_eq_map (alone : ∀ t, enabled = [t] → (r.members [t] holds t).has t = true) :
    r.flags enabled holds = enabled.map (r.members enabled holds (seedOf enabled)).has := by
  unfold flags
  split
  · rfl
  · next t =>
    rw [List.map_singleton, show seedOf [t] = t from rfl, alone t rfl]
  · rfl

/-- The seeds depend on the processes of the transitions alone. -/
theorem seeds_congr (r r' : Reducer)
    (same : ∀ t, r.analysis.processesOf t = r'.analysis.processesOf t) (covered ts : List Nat) :
    r.seeds covered ts = r'.seeds covered ts := by
  induction ts generalizing covered with
  | nil => rfl
  | cons t rest ih => simp only [seeds, ih, same]

/-- **The flags do not depend on the statistics.** -/
theorem flags_stats (r : Reducer) (stats : Stats) (enabled : List Nat) (holds : Oracle) :
    ({ r with stats := stats } : Reducer).flags enabled holds = r.flags enabled holds := by
  have base : ({ r with stats := stats } : Reducer).baseMembers enabled
      = r.baseMembers enabled := by
    unfold baseMembers seedsOf
    rw [seeds_congr { r with stats := stats } r fun _ => rfl]
    rfl
  unfold flags members
  rw [base]
  rfl

theorem find?_outOfRange (inside : ∀ t ∈ enabled, t < r.transitionCount) :
    enabled.find? (fun t => r.transitionCount ≤ t) = none := by
  rw [List.find?_eq_none]
  intro t member beyond
  have below := inside t member
  have beyond := of_decide_eq_true beyond
  omega

/-- **A reduction of transitions of the system** gives the flags and changes the statistics, or
these overflow. -/
theorem reduce_eq (inside : ∀ t ∈ enabled, t < r.transitionCount) :
    r.reduce enabled holds
      = (orAbort (r.stats.record ((r.flags enabled holds).count true) enabled.length)).map
          fun stats => (r.flags enabled holds, { r with stats := stats }) := by
  simp only [reduce, find?_outOfRange inside]
  cases orAbort (r.stats.record ((r.flags enabled holds).count true) enabled.length) with
  | error failure => rfl
  | ok stats => rfl

theorem reduce_of_record (inside : ∀ t ∈ enabled, t < r.transitionCount) {stats : Stats}
    (recorded : r.stats.record ((r.flags enabled holds).count true) enabled.length = .ok stats) :
    r.reduce enabled holds = .ok (r.flags enabled holds, { r with stats := stats }) := by
  rw [reduce_eq inside, recorded]
  rfl

end Reducer

namespace Interpreted

theorem kept_map (enabled : List Nat) (keep : Nat → Bool) :
    kept enabled (enabled.map keep) = enabled.filter keep := by
  unfold kept
  induction enabled with
  | nil => rfl
  | cons t rest ih =>
    rw [List.map_cons, List.zip_cons_cons, List.filterMap_cons, ih, List.filter_cons]
    cases keep t with
    | true => rfl
    | false => rfl

/-- As many transitions are kept as flags are set. -/
theorem length_kept_flags (r : Reducer) (enabled : List Nat) (holds : Oracle) :
    (kept enabled (r.flags enabled holds)).length = (r.flags enabled holds).count true := by
  obtain ⟨keeps, flags⟩ := r.exists_flags_eq_map enabled holds
  rw [flags, kept_map, List.count, List.countP_map, List.countP_eq_length_filter]
  simp [Function.comp_def]

/-- **The kept transitions are those of the enabled ones that are among them.** -/
theorem filter_contains_kept (r : Reducer) (enabled : List Nat) (holds : Oracle) :
    enabled.filter (kept enabled (r.flags enabled holds)).contains
      = kept enabled (r.flags enabled holds) := by
  obtain ⟨keeps, flags⟩ := r.exists_flags_eq_map enabled holds
  rw [flags, kept_map]
  refine List.filter_congr fun t member => ?_
  rw [Bool.eq_iff_iff, List.contains_iff_mem, List.mem_filter, and_iff_right member]

/-- **The kept transitions are the enabled members of a stubborn set.** -/
theorem kept_flags_stubborn {s : TransitionSystem} {options : Options}
    (method : options.method = .stubbornSet) {enabled : List Nat} {holds : Oracle}
    (inside : ∀ t ∈ enabled, t < s.transitions.size) :
    kept enabled ((Reducer.ofAnalysis (Analysis.ofValid s) options).flags enabled holds)
      = enabled.filter ((Reducer.ofAnalysis (Analysis.ofValid s) options).stubbornMembers enabled
          holds (Reducer.seedOf enabled)).has := by
  have stubborn : (Reducer.ofAnalysis (Analysis.ofValid s) options).options.method
      = .stubbornSet := method
  rw [Reducer.flags_eq_map, kept_map, Reducer.members, stubborn]
  rintro t rfl
  rw [Reducer.members, stubborn]
  exact Reducer.has_stubbornMembers_seed options (inside t (List.mem_singleton.mpr rfl))

theorem oracle_eq {g : Interpreted} {state : Image} {guard : Nat} {answer : Option Bool}
    (reads : g.interpreter.guardHolds state.bytes guard = .ok answer) :
    g.oracle state guard = answer := by
  unfold oracle
  rw [reads]

/-- Nothing breaks off where all guards can be read. -/
theorem requireGuards_of_readable {g : Interpreted} {state : Image}
    (readable : ∀ guard, ∃ answer, g.interpreter.guardHolds state.bytes guard = .ok answer)
    (guards : List Nat) : g.requireGuards state guards = .ok () := by
  induction guards with
  | nil => rfl
  | cons guard rest ih =>
    obtain ⟨answer, reads⟩ := readable guard
    rw [requireGuards, reads]
    exact ih

/-- **The transitions that fire in a state of a reduced graph.** -/
theorem chosen_of_record {g : Interpreted} {state : Image} {reducer : Reducer} {enabled : List Nat}
    {stats : Stats} (reduces : g.reducer = some reducer)
    (fires : g.interpreter.enabled state.bytes = .ok enabled)
    (inside : ∀ t ∈ enabled, t < reducer.transitionCount)
    (recorded : reducer.stats.record ((reducer.flags enabled (g.oracle state)).count true)
      enabled.length = .ok stats)
    (readable : ∀ guard, ∃ answer, g.interpreter.guardHolds state.bytes guard = .ok answer) :
    g.chosen state = .ok (kept enabled (reducer.flags enabled (g.oracle state)),
      some { reducer with stats := stats }) := by
  unfold chosen
  simp only [fires, reduces, orAbort, bind, Except.bind,
    Reducer.reduce_of_record inside recorded, requireGuards_of_readable readable]
  rfl

/-! ### Full graphs -/

/-- A full graph remembers nothing. -/
theorem successors_full_snd (i : Interpreter) (policy : Policy) (state : Image) :
    (Explorable.successors (full i policy) state).2 = full i policy := by
  show ((full i policy).expand state).2 = _
  unfold expand chosen
  simp only [full, bind, Except.bind]
  cases orAbort (i.enabled state.bytes) with
  | error failure => rfl
  | ok enabled => rfl

theorem functional_full (i : Interpreter) (policy : Policy) :
    Explorable.Functional (full i policy) :=
  .of_fixed (successors_full_snd i policy)

section Fires

variable {i : Interpreter} (policy : Policy) {state : Image} {enabled : List Nat}
  (fires : i.enabled state.bytes = .ok enabled)

include fires

theorem chosen_full : (full i policy).chosen state = .ok (enabled, none) := by
  unfold chosen
  simp only [full, fires, orAbort, bind, Except.bind]
  rfl

/-- The expansion of a state in a full graph. -/
theorem expand_full : ((full i policy).expand state).1 = i.execute policy state enabled := by
  rw [expand, chosen_full policy fires]
  rfl

/-- In a full graph all enabled transitions fire. -/
theorem next_full :
    Explorable.next (full i policy) state
      = (i.execute policy state enabled).map Expansion.states := by
  show (((full i policy).expand state).1).map Expansion.states = _
  rw [expand_full policy fires]

end Fires

end Interpreted

end StateSpace

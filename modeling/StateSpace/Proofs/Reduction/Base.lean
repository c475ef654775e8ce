/-
**What the method `base` keeps.**

Its sets hold a seed for each process of the enabled transitions, and with a member all enabled
transitions that it interferes with.

* `Reducer.exists_seed` — each process of an enabled transition is one of a seed.
* `Reducer.has_baseMembers_of_seed`, `Reducer.has_baseMembers_of_neighbour` — the two ways into the
  set.
* `Reducer.exists_baseMember` — where something is enabled, something is kept.
* `Reducer.has_baseMembers_of_meeting` — where enabled transitions of a common process interfere,
  everything is kept.
* `Interpreted.kept_flags_base` — what is kept are the enabled members.
-/

import StateSpace.Proofs.Reduction.Kept

namespace StateSpace

namespace Reducer

variable {r : Reducer} {covered ts enabled : List Nat} {t u process : Nat}

/-! ### Seeds -/

theorem mem_of_mem_seeds (seed : t ∈ r.seeds covered ts) : t ∈ ts := by
  induction ts generalizing covered with
  | nil => exact seed
  | cons first rest ih =>
    unfold seeds at seed
    dsimp only at seed
    by_cases known : (r.analysis.processesOf first).all covered.contains = true
    · rw [if_pos known] at seed
      exact List.mem_cons_of_mem _ (ih seed)
    · rw [if_neg known] at seed
      rcases List.mem_cons.mp seed with rfl | later
      · exact List.mem_cons_self
      · exact List.mem_cons_of_mem _ (ih later)

/-- **Each process is covered**, before or by a seed. -/
theorem covered_or_exists_seed (member : t ∈ ts) (tag : process ∈ r.analysis.processesOf t) :
    process ∈ covered ∨ ∃ u ∈ r.seeds covered ts, process ∈ r.analysis.processesOf u := by
  induction ts generalizing covered with
  | nil => cases member
  | cons first rest ih =>
    unfold seeds
    dsimp only
    by_cases known : (r.analysis.processesOf first).all covered.contains = true
    · rw [if_pos known]
      rcases List.mem_cons.mp member with rfl | later
      · have contained := List.all_eq_true.mp known process tag
        exact .inl (List.contains_iff_mem.mp contained)
      · exact ih later
    · rw [if_neg known]
      rcases List.mem_cons.mp member with rfl | later
      · exact .inr ⟨t, List.mem_cons_self, tag⟩
      · -- what `first` brings is covered from now on
        rcases ih later with now | ⟨u, seed, tag'⟩
        · rcases List.mem_append.mp now with brought | before
          · exact .inr ⟨first, List.mem_cons_self, brought⟩
          · exact .inl before
        · exact .inr ⟨u, List.mem_cons_of_mem _ seed, tag'⟩

theorem mem_of_mem_seedsOf (seed : t ∈ r.seedsOf enabled) : t ∈ enabled :=
  mem_ascending.mp (mem_of_mem_seeds seed)

/-- **Each process of an enabled transition is one of a seed.** -/
theorem exists_seed (member : t ∈ enabled) (tag : process ∈ r.analysis.processesOf t) :
    ∃ u ∈ r.seedsOf enabled, process ∈ r.analysis.processesOf u := by
  have found : process ∈ [] ∨ ∃ u ∈ r.seedsOf enabled, process ∈ r.analysis.processesOf u :=
    covered_or_exists_seed (mem_ascending.mpr member) tag
  exact found.resolve_left List.not_mem_nil

/-! ### Members -/

variable (inside : ∀ t ∈ enabled, t < r.transitionCount)

include inside

theorem has_baseMembers_of_seed (seed : t ∈ r.seedsOf enabled) :
    (r.baseMembers enabled).has t = true :=
  has_closureOf_of_seed seed (inside t (mem_of_mem_seedsOf seed))

theorem has_baseMembers_of_neighbour (has : (r.baseMembers enabled).has t = true)
    (neighbour : u ∈ r.interference.columns t) (fires : u ∈ enabled) :
    (r.baseMembers enabled).has u = true := by
  have among : (Members.ofList r.transitionCount enabled).has u = true :=
    Members.has_ofList.mpr ⟨fires, inside u fires⟩
  exact has_closureOf_of_step has (List.mem_filter.mpr ⟨neighbour, among⟩) (inside u fires)

/-- **Where something is enabled, something is kept.** -/
theorem exists_baseMember (member : t ∈ enabled) (tagged : r.analysis.processesOf t ≠ []) :
    ∃ u ∈ enabled, (r.baseMembers enabled).has u = true := by
  obtain ⟨process, tag⟩ := List.exists_mem_of_ne_nil _ tagged
  obtain ⟨u, seed, _⟩ := exists_seed member tag
  exact ⟨u, mem_of_mem_seedsOf seed, has_baseMembers_of_seed inside seed⟩

/-- **Where enabled transitions of a common process interfere, everything is kept.** -/
theorem has_baseMembers_of_meeting
    (meeting : ∀ u ∈ enabled, u ≠ t → process ∈ r.analysis.processesOf u →
      t ∈ r.interference.columns u)
    (member : t ∈ enabled) (tag : process ∈ r.analysis.processesOf t) :
    (r.baseMembers enabled).has t = true := by
  obtain ⟨u, seed, tag'⟩ := exists_seed member tag
  have has := has_baseMembers_of_seed inside seed
  by_cases same : u = t
  · rwa [← same]
  · exact has_baseMembers_of_neighbour inside has
      (meeting u (mem_of_mem_seedsOf seed) same tag') member

end Reducer

/-- **The kept transitions are the enabled members.** A single transition is its own seed. -/
theorem Interpreted.kept_flags_base {r : Reducer} (method : r.options.method = .base)
    {enabled : List Nat} (inside : ∀ t ∈ enabled, t < r.transitionCount)
    (tagged : ∀ t ∈ enabled, r.analysis.processesOf t ≠ []) (holds : Oracle) :
    kept enabled (r.flags enabled holds) = enabled.filter (r.baseMembers enabled).has := by
  rw [Reducer.flags_eq_map, kept_map, Reducer.members, method]
  rintro t rfl
  rw [Reducer.members, method]
  have alone : t ∈ [t] := List.mem_singleton.mpr rfl
  obtain ⟨u, single, has⟩ := Reducer.exists_baseMember inside alone (tagged t alone)
  rwa [List.mem_singleton.mp single] at has

end StateSpace

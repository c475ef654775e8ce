/-
**The method `base` drops nothing where transitions of a common process interfere.**

* `TransitionSystem.exists_seed_of_tag` — each process of an enabled transition is one of a seed.
* `TransitionSystem.linked_of_coenabled` — so a transition is linked to a seed if it may be enabled
  together with the enabled transitions of one of its processes. It may have several processes, and
  the seeds may cover them one by one: a single seed is enough.
* `Reducer.base_keeps_coenabled` — a reduction keeps every entry of a list if any two of its entries
  may be enabled together.
-/

import StateSpace.Proofs.Reduction.Components

namespace StateSpace

namespace TransitionSystem

variable {s : TransitionSystem} {enabled : List Nat} {t process : Nat}

/-- **Each process of an enabled transition is one of a seed.** The transition is a seed itself
unless a smaller one has the process. -/
theorem exists_seed_of_tag (fires : t ∈ enabled) (tag : s.HasTag t process) :
    ∃ seed, s.Seed enabled seed ∧ s.HasTag seed process := by
  by_cases covered : ∃ u, u < t ∧ s.Seed enabled u ∧ s.HasTag u process
  · obtain ⟨u, _, seed, tag'⟩ := covered
    exact ⟨u, seed, tag'⟩
  · refine ⟨t, ?_, tag⟩
    rw [Seed]
    refine ⟨fires, process, tag, fun u less seed tag' => ?_⟩
    exact covered ⟨u, less, seed, tag'⟩

/-- **A transition is linked to a seed of its process** if it may be enabled together with the
enabled transitions of that process. -/
theorem linked_of_coenabled (fires : t ∈ enabled) (tag : s.HasTag t process)
    (coenabled : ∀ u ∈ enabled, u ≠ t → s.HasTag u process → ¬ s.NeverCoenabled u t) :
    s.Linked true enabled t := by
  obtain ⟨seed, isSeed, tag'⟩ := exists_seed_of_tag fires tag
  by_cases same : seed = t
  · rw [← same]
    exact isSeed.linked
  · refine isSeed.linked.step ⟨same, ?_, .inr ⟨rfl, process, tag', tag⟩⟩ fires
    exact coenabled seed isSeed.mem same tag'

end TransitionSystem

namespace Reducer

/-- **With transitions of a common process interfering, `base` keeps everything.** Take a reducer
for a system with this method and this option, and a list of transitions of which no two are never
enabled together. Whatever the footprints, the tags and the oracle are, a reduction keeps every
entry. -/
theorem base_keeps_coenabled {s : TransitionSystem} {r : Reducer}
    (made : ofSystem s ⟨.base, true⟩ = .ok r) {enabled : List Nat}
    (known : ∀ t ∈ enabled, t < s.transitions.size)
    (coenabled : ∀ t ∈ enabled, ∀ u ∈ enabled, t ≠ u →
      r.analysis.neverCoenabled.get t u = false) (holds : Oracle) :
    r.Keeps enabled holds fun _ => True := by
  have represents := represents_of_ofSystem made
  have linked : ∀ t ∈ enabled, s.Linked true enabled t := by
    intro t member
    obtain ⟨process, tag⟩ := represents.exists_hasTag (known t member)
    refine TransitionSystem.linked_of_coenabled member tag fun u fires different _ never => ?_
    rw [← represents.get_neverCoenabled, coenabled u fires t member different] at never
    cases never
  have keeps := represents.keeps_members holds known
  rw [members, represents.options_eq] at keeps
  refine keeps.congr fun t member => iff_true_intro ?_
  exact (represents.has_baseMembers_iff known).mpr (linked t member)

/-- All four steps of the handshake are possible. Answering depends on none of the others, but it
shares a process with meeting, so it is kept. -/
theorem base_keeps_coenabled_handshake :
    ∃ r, ofSystem handshake ⟨.base, true⟩ = .ok r ∧
      ∃ later, r.reduce [3, 2, 1, 0] (fun _ => none) = .ok ([true, true, true, true], later) := by
  have made : ofSystem handshake ⟨.base, true⟩
      = .ok (ofAnalysis (Analysis.ofValid handshake) ⟨.base, true⟩) := rfl
  have represents := represents_of_ofSystem made
  have coenabled : ∀ t ∈ [3, 2, 1, 0], ∀ u ∈ [3, 2, 1, 0], t ≠ u →
      (ofAnalysis (Analysis.ofValid handshake) ⟨.base, true⟩).analysis.neverCoenabled.get t u
        = false := by
    intro t _ u _ _
    rw [← Bool.not_eq_true, represents.get_neverCoenabled]
    rintro ⟨_, g, h, _, _, excludes⟩
    simp [TransitionSystem.Excludes, handshake] at excludes
  have keeps := base_keeps_coenabled made (by decide) coenabled fun _ => none
  have told : ∀ t ∈ [3, 2, 1, 0], (True ↔ (fun _ : Nat => true) t = true) :=
    fun _ _ => iff_of_true trivial rfl
  obtain ⟨_, reduced⟩ := keeps.exists_reduce told (Stats.room_initial (by decide))
  exact ⟨_, made, _, reduced⟩

end Reducer

end StateSpace

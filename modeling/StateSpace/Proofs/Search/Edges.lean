/-
**What following edges does to a search.**

* `Search.Apart` — among the states that matter, the visited table tells any two apart.
* `Search.Tabled` — among them, it knows the discovered ones.
* `Search.Followed` — the effect of following some edges: the new targets are appended to the
  discovered states, a target that is still missing was left out because of the ceiling, and of the
  counters only that of the edges changes.
* `Search.follow_spec`, `Search.foldl_follow_spec` — following one edge, and all of a list.
-/

import Mathlib.Data.List.Nodup
import StateSpace.Proofs.Image.Entries
import StateSpace.Search.Explore

namespace StateSpace

variable {G : Type}

namespace Search

/-- The states that were looked at. -/
def looked (search : Search G) : List Image :=
  search.discovered.toList.take search.report.states

theorem looked_subset {search : Search G} {state : Image} (member : state ∈ search.looked) :
    state ∈ search.discovered.toList :=
  List.mem_of_mem_take member

/-- The discovered states are those looked at, then the next one, then the others. -/
theorem exists_rest {search : Search G} {state : Image}
    (found : search.discovered[search.report.states]? = some state) :
    ∃ rest, search.discovered.toList = search.looked ++ state :: rest := by
  rw [← Array.getElem?_toList] at found
  obtain ⟨inside, get⟩ := List.getElem?_eq_some_iff.mp found
  refine ⟨search.discovered.toList.drop (search.report.states + 1), ?_⟩
  rw [looked, ← get, ← List.drop_eq_getElem_cons inside, List.take_append_drop]

theorem mem_discovered {search : Search G} {state : Image}
    (found : search.discovered[search.report.states]? = some state) :
    state ∈ search.discovered.toList := by
  obtain ⟨rest, split⟩ := exists_rest found
  rw [split]
  exact List.mem_append_right _ List.mem_cons_self

/-- A search whose ceiling is reached stays at the ceiling. -/
theorem isFull_of_size_le {limits : Limits} {before after : Search G}
    (grows : before.discovered.size ≤ after.discovered.size)
    (full : before.isFull limits = true) : after.isFull limits = true := by
  unfold isFull at full ⊢
  cases ceiling : limits.maxStates with
  | none => rw [ceiling] at full; exact full
  | some most =>
    rw [ceiling, decide_eq_true_eq] at full
    exact decide_eq_true (Nat.le_trans full grows)

/-! ### Following edges -/

/-- **The table knows the discovered states**, among the states that matter. -/
structure Tabled (known : Image → Prop) (search : Search G) : Prop where
  nodup : search.discovered.toList.Nodup
  contains_iff : ∀ state, known state →
    (search.visited.contains state = true ↔ state ∈ search.discovered.toList)

/-- **What following some edges does.** -/
structure Followed (limits : Limits) (targets : List Image) (before after : Search G) : Prop where
  graph : after.graph = before.graph
  states : after.report.states = before.report.states
  transitions : after.report.transitions = before.report.transitions + targets.length
  deadlocks : after.report.deadlocks = before.report.deadlocks
  accepting : after.report.accepting = before.report.accepting
  stoppedAt : after.report.stoppedAt = before.report.stoppedAt
  grown : ∃ added, after.discovered.toList = before.discovered.toList ++ added ∧
    ∀ state ∈ added, state ∈ targets ∧ state ∉ before.discovered.toList ∧
      before.isFull limits = false
  met : ∀ state ∈ targets, state ∈ after.discovered.toList ∨ after.report.truncated = true
  truncated : before.report.truncated = true → after.report.truncated = true
  full : after.report.truncated = true →
    before.report.truncated = true ∨ after.isFull limits = true

namespace Followed

variable {limits : Limits} {target : Image} {targets : List Image} {before between after : Search G}

theorem subset (followed : Followed limits targets before after) {state : Image}
    (member : state ∈ before.discovered.toList) : state ∈ after.discovered.toList := by
  obtain ⟨added, grown, _⟩ := followed.grown
  rw [grown]
  exact List.mem_append_left added member

theorem size_le (followed : Followed limits targets before after) :
    before.discovered.size ≤ after.discovered.size := by
  obtain ⟨added, grown, _⟩ := followed.grown
  have lengths := congrArg List.length grown
  rw [List.length_append, Array.length_toList, Array.length_toList] at lengths
  omega

theorem refl (search : Search G) : Followed limits [] search search where
  graph := rfl
  states := rfl
  transitions := rfl
  deadlocks := rfl
  accepting := rfl
  stoppedAt := rfl
  grown := ⟨[], by simp, by simp⟩
  met := by simp
  truncated := id
  full := .inl

/-- Following one edge, and then others. -/
theorem cons (first : Followed limits [target] before between)
    (later : Followed limits targets between after) :
    Followed limits (target :: targets) before after where
  graph := later.graph.trans first.graph
  states := later.states.trans first.states
  transitions := by
    rw [later.transitions, first.transitions, List.length_singleton, List.length_cons,
      Nat.add_assoc, Nat.add_comm 1]
  deadlocks := later.deadlocks.trans first.deadlocks
  accepting := later.accepting.trans first.accepting
  stoppedAt := later.stoppedAt.trans first.stoppedAt
  grown := by
    obtain ⟨added, grown, fresh⟩ := first.grown
    obtain ⟨added', grown', fresh'⟩ := later.grown
    refine ⟨added ++ added', by rw [grown', grown, List.append_assoc], fun state member => ?_⟩
    rcases List.mem_append.mp member with early | late
    · obtain ⟨asked, unknown, room⟩ := fresh state early
      rw [List.mem_singleton] at asked
      exact ⟨by rw [asked]; exact List.mem_cons_self, unknown, room⟩
    · obtain ⟨asked, unknown, room⟩ := fresh' state late
      refine ⟨List.mem_cons_of_mem _ asked, fun old => unknown (first.subset old), ?_⟩
      refine Bool.eq_false_iff.mpr fun full => ?_
      rw [isFull_of_size_le first.size_le full] at room
      cases room
  met := by
    intro state member
    rcases List.mem_cons.mp member with rfl | rest
    · exact (first.met state List.mem_cons_self).imp later.subset later.truncated
    · exact later.met state rest
  truncated := fun old => later.truncated (first.truncated old)
  full := by
    intro late
    rcases later.full late with early | full
    · exact (first.full early).imp_right (isFull_of_size_le later.size_le)
    · exact .inr full

end Followed

/-- The table tells the states of a graph apart. -/
def Apart (known : Image → Prop) : Prop :=
  ∀ first second, known first → known second → (first.sameEntry second = true ↔ first = second)

theorem Apart.of_size {known : Image → Prop}
    (size : ∀ first second, known first → known second → first.size = second.size) :
    Apart known :=
  fun first second knownFirst knownSecond =>
    Image.sameEntry_iff_eq_of_size_eq (size first second knownFirst knownSecond)

/-- **Following an edge.** -/
theorem follow_spec {known : Image → Prop} (apart : Apart known) (limits : Limits)
    {search : Search G} (tabled : Tabled known search) {target : Image}
    (knownTarget : known target) :
    Followed limits [target] search (follow limits search target) ∧
      Tabled known (follow limits search target) := by
  unfold follow
  by_cases met : search.visited.contains target = true
  · rw [if_pos met]
    have member := (tabled.contains_iff target knownTarget).mp met
    refine ⟨⟨rfl, rfl, rfl, rfl, rfl, rfl, ⟨[], by simp, by simp⟩, ?_, id, .inl⟩, ⟨tabled.nodup,
      tabled.contains_iff⟩⟩
    intro state single
    rw [List.mem_singleton] at single
    exact .inl (by rw [single]; exact member)
  · rw [if_neg met]
    have unknown : target ∉ search.discovered.toList := fun member =>
      met ((tabled.contains_iff target knownTarget).mpr member)
    by_cases full : search.isFull limits = true
    · rw [if_pos full]
      exact ⟨⟨rfl, rfl, rfl, rfl, rfl, rfl, ⟨[], by simp, by simp⟩, fun _ _ => .inr rfl,
        fun _ => rfl, fun _ => .inr full⟩, ⟨tabled.nodup, tabled.contains_iff⟩⟩
    · rw [if_neg full]
      have pushed : (search.discovered.push target).toList = search.discovered.toList ++ [target] :=
        Array.toList_push
      refine ⟨⟨rfl, rfl, rfl, rfl, rfl, rfl, ⟨[target], pushed, ?_⟩, ?_, id, .inl⟩, ⟨?_, ?_⟩⟩
      · intro state single
        refine ⟨single, ?_, Bool.eq_false_iff.mpr full⟩
        rw [List.mem_singleton.mp single]
        exact unknown
      · intro state single
        refine .inl ?_
        rw [pushed]
        exact List.mem_append_right _ single
      · rw [pushed]
        refine tabled.nodup.append (List.nodup_singleton target) fun state member single => ?_
        rw [List.mem_singleton.mp single] at member
        exact unknown member
      · intro state knownState
        rw [pushed, Visited.contains_insert, Bool.or_eq_true, List.mem_append, List.mem_singleton,
          tabled.contains_iff state knownState, apart state target knownState knownTarget, or_comm]

/-- **Following some edges**, one after the other. -/
theorem foldl_follow_spec {known : Image → Prop} (apart : Apart known) (limits : Limits)
    (targets : List Image) (knownTargets : ∀ target ∈ targets, known target) (search : Search G)
    (tabled : Tabled known search) :
    Followed limits targets search (targets.foldl (follow limits) search) ∧
      Tabled known (targets.foldl (follow limits) search) := by
  induction targets generalizing search with
  | nil => exact ⟨.refl search, tabled⟩
  | cons target rest ih =>
    have knownTarget := knownTargets target List.mem_cons_self
    have knownRest : ∀ state ∈ rest, known state := fun state member =>
      knownTargets state (List.mem_cons_of_mem _ member)
    obtain ⟨first, tabled'⟩ := follow_spec apart limits tabled knownTarget
    obtain ⟨later, tabled''⟩ := ih knownRest (follow limits search target) tabled'
    exact ⟨first.cons later, tabled''⟩

end Search

end StateSpace

/-
**What a reduction answers.**

A reducer keeps its relations through all calls; only its statistics grow, and they do not matter to
the flags.

* `Reducer.Represents` — what the relations of a reducer say of a description, all that the later
  arguments need to know of the analysis. `Reducer.represents_of_ofSystem` is about a reducer that
  is made for it.
* `Reducer.Keeps` — what is kept of an enabled list in every call: the entries of which something
  holds. A call is answered if the statistics have room (`Stats.Room`).
* `Reducer.Represents.keeps_members` — it is the members of the set of the method, also for a list
  with a single entry.
-/

import Mathlib.Data.List.Forall2
import StateSpace.Proofs.Reduction.Base

namespace StateSpace

/-- The counters have room for one more state with so many enabled transitions. -/
def Stats.Room (stats : Stats) (enabled : Nat) : Prop :=
  stats.states + 1 < UInt64.size ∧ stats.reduced + enabled < UInt64.size ∧
    stats.enabled + enabled < UInt64.size

/-- At first there is room for every list that can be counted. -/
theorem Stats.room_initial {enabled : Nat} (few : enabled < UInt64.size) :
    Stats.initial.Room enabled := by
  refine ⟨by decide, ?_, ?_⟩
  · rwa [Stats.initial, Nat.zero_add]
  · rwa [Stats.initial, Nat.zero_add]

namespace Reducer

/-- **The relations of a reducer are those of a description.** -/
structure Represents (r : Reducer) (s : TransitionSystem) (options : Options) : Prop where
  wellFormed : s.WellFormed
  options_eq : r.options = options
  transitionCount_eq : r.transitionCount = s.transitions.size
  mem_processesOf : ∀ {t process : Nat}, process ∈ r.analysis.processesOf t ↔ s.HasTag t process
  mem_guardsOf : ∀ {t g : Nat}, g ∈ r.analysis.guardsOf t ↔ s.HasGuard t g
  guards_ascend : ∀ t : Nat, (r.analysis.guardsOf t).Pairwise (· < ·)
  mem_enablersOf : ∀ {g t : Nat}, t ∈ r.analysis.enablersOf g ↔ s.Enables t g
  get_conflict : ∀ {t u : Nat}, r.analysis.conflict.get t u = true ↔ s.Conflicts t u
  get_neverCoenabled : ∀ {t u : Nat},
    r.analysis.neverCoenabled.get t u = true ↔ s.NeverCoenabled t u
  mem_interference : ∀ {t u : Nat}, u ∈ r.interference.columns t ↔
    s.Interferes options.processLocal t u

/-- **The descriptions that a reducer can be made for** are the well-formed ones that fit in
memory. -/
theorem ofSystem_eq_ok_iff {s : TransitionSystem} {options : Options} {r : Reducer} :
    ofSystem s options = .ok r ↔
      s.fitsMemory = true ∧ s.WellFormed ∧ r = ofAnalysis (.ofValid s) options := by
  unfold ofSystem
  constructor
  · intro made
    cases analysed : Analysis.ofSystem s with
    | error failure =>
      rw [analysed] at made
      cases made
    | ok a =>
      obtain ⟨memory, wellFormed, rfl⟩ := Analysis.ofSystem_eq_ok_iff.mp analysed
      rw [analysed] at made
      exact ⟨memory, wellFormed, (Except.ok.inj made).symm⟩
  · rintro ⟨memory, wellFormed, rfl⟩
    rw [Analysis.ofSystem_eq_ok_iff.mpr ⟨memory, wellFormed, rfl⟩]
    rfl

/-- **A reducer that is made for a description represents it.** -/
theorem represents_of_ofSystem {s : TransitionSystem} {options : Options} {r : Reducer}
    (made : ofSystem s options = .ok r) : r.Represents s options := by
  obtain ⟨_, wellFormed, rfl⟩ := ofSystem_eq_ok_iff.mp made
  exact ⟨wellFormed, rfl, Analysis.transitionCount_ofValid, Analysis.mem_processesOf,
    Analysis.mem_guardsOf, Analysis.pairwise_guardsOf, Analysis.mem_enablersOf wellFormed,
    Analysis.get_conflict_iff wellFormed, Analysis.get_neverCoenabled_iff wellFormed,
    Analysis.mem_interference_iff wellFormed⟩

/-- **What a reducer keeps of an enabled list**, whatever it has recorded: exactly the entries of
which `keeps` holds. It gives an answer as long as the counters have room. -/
structure Keeps (r : Reducer) (enabled : List Nat) (holds : Oracle) (keeps : Nat → Prop) :
    Prop where
  flags : ∀ {stats : Stats} {flags : List Bool} {later : Reducer},
    ({ r with stats := stats } : Reducer).reduce enabled holds = .ok (flags, later) →
      List.Forall₂ (fun t kept => kept = true ↔ keeps t) enabled flags
  answers : ∀ {stats : Stats}, stats.Room enabled.length → ∃ flags later,
    ({ r with stats := stats } : Reducer).reduce enabled holds
      = .ok (flags, { r with stats := later })

variable {s : TransitionSystem} {options : Options} {r : Reducer} {enabled : List Nat}
  {holds : Oracle}

theorem Keeps.congr {first second : Nat → Prop} (keeps : r.Keeps enabled holds first)
    (same : ∀ t ∈ enabled, (first t ↔ second t)) : r.Keeps enabled holds second where
  answers := keeps.answers
  flags := by
    intro stats flags later reduced
    have each := keeps.flags reduced
    rw [List.forall₂_iff_zip] at each ⊢
    refine ⟨each.1, fun {t kept} member => (each.2 member).trans (same t ?_)⟩
    exact (List.of_mem_zip member).1

/-- What is kept is determined by the reducer, the list and what is known. -/
theorem Keeps.unique {first second : Nat → Prop} (keeps : r.Keeps enabled holds first)
    (keeps' : r.Keeps enabled holds second) (room : Stats.initial.Room enabled.length) :
    ∀ t ∈ enabled, (first t ↔ second t) := by
  intro t member
  obtain ⟨flags, later, reduced⟩ := keeps.answers room
  obtain ⟨i, inside, rfl⟩ := List.getElem_of_mem member
  obtain ⟨sameLength, each⟩ := List.forall₂_iff_get.mp (keeps.flags reduced)
  obtain ⟨_, each'⟩ := List.forall₂_iff_get.mp (keeps'.flags reduced)
  have inside' : i < flags.length := lt_of_lt_of_eq inside sameLength
  exact (each i inside inside').symm.trans (each' i inside inside')

/-- With room in the counters, an answer can be told from what is kept. -/
theorem Keeps.exists_reduce {keeps : Nat → Prop} (keepsThose : r.Keeps enabled holds keeps)
    {keep : Nat → Bool} (told : ∀ t ∈ enabled, (keeps t ↔ keep t = true)) {stats : Stats}
    (room : stats.Room enabled.length) :
    ∃ later, ({ r with stats := stats } : Reducer).reduce enabled holds
      = .ok (enabled.map keep, { r with stats := later }) := by
  obtain ⟨flags, later, reduced⟩ := keepsThose.answers room
  have each : List.Forall₂ (fun t kept => kept = true ↔ keep t = true) enabled flags :=
    (keepsThose.congr told).flags reduced
  have same : List.Forall₂ (fun kept told => kept = told) flags (enabled.map keep) := by
    rw [List.forall₂_map_right_iff]
    exact (each.imp fun t kept => Bool.eq_iff_iff.mpr).flip
  rw [List.forall₂_eq_eq_eq] at same
  exact ⟨later, same ▸ reduced⟩

/-- A reduction with other statistics gives the same flags, or these overflow. -/
theorem reduce_withStats (inside : ∀ t ∈ enabled, t < r.transitionCount) (stats : Stats) :
    ({ r with stats := stats } : Reducer).reduce enabled holds
      = (orAbort (stats.record ((r.flags enabled holds).count true) enabled.length)).map
          fun later => (r.flags enabled holds, { r with stats := later }) := by
  have known : ∀ t ∈ enabled, t < ({ r with stats := stats } : Reducer).transitionCount := inside
  rw [reduce_eq known, flags_stats]

/-- A list of transitions of the system is reduced to the entries that are flagged. -/
theorem keeps_of_flags (inside : ∀ t ∈ enabled, t < r.transitionCount) {keep : Nat → Bool}
    (flagged : r.flags enabled holds = enabled.map keep) :
    r.Keeps enabled holds fun t => keep t = true where
  flags := by
    intro stats flags later reduced
    rw [reduce_withStats inside] at reduced
    cases recorded : stats.record ((r.flags enabled holds).count true) enabled.length with
    | error abort => simp [recorded, orAbort, Except.map] at reduced
    | ok grown =>
      simp only [recorded, orAbort, Except.map, Except.ok.injEq, Prod.mk.injEq] at reduced
      rw [← reduced.1, flagged, List.forall₂_map_right_iff]
      exact List.forall₂_same.mpr fun t _ => Iff.rfl
  answers := by
    rintro stats ⟨states, reducedFits, enabledFits⟩
    have few : (r.flags enabled holds).count true ≤ enabled.length :=
      List.count_le_length.trans (Nat.le_of_eq (length_flags r enabled holds))
    obtain ⟨grown, recorded, _⟩ := Stats.exists_record states
      (Nat.lt_of_le_of_lt (Nat.add_le_add_left few _) reducedFits) enabledFits
    refine ⟨r.flags enabled holds, grown, ?_⟩
    rw [reduce_withStats inside, recorded]
    rfl

namespace Represents

/-- The transitions of a list are numbered by the reducer. -/
theorem inside (represents : r.Represents s options)
    (known : ∀ t ∈ enabled, t < s.transitions.size) : ∀ t ∈ enabled, t < r.transitionCount :=
  fun t member => lt_of_lt_of_eq (known t member) represents.transitionCount_eq.symm

/-- Each transition of the system belongs to a process. -/
theorem exists_hasTag (represents : r.Represents s options) {t : Nat}
    (known : t < s.transitions.size) : ∃ process, s.HasTag t process := by
  have found : s.transitions[t]? = some s.transitions[t] := Array.getElem?_eq_getElem known
  obtain ⟨process, tag⟩ :=
    List.exists_mem_of_ne_nil _ (represents.wellFormed.transitions found).tagged
  exact ⟨process, _, found, tag⟩

/-- A transition that stands alone is a member. -/
theorem has_members_alone (represents : r.Represents s options) {t : Nat}
    (known : t < s.transitions.size) : (r.members [t] holds t).has t = true := by
  have alone : ∀ u ∈ [t], u < r.transitionCount := represents.inside fun u single => by
    rwa [List.mem_singleton.mp single]
  unfold members
  split
  · obtain ⟨process, tag⟩ := represents.exists_hasTag known
    obtain ⟨u, single, has⟩ := exists_baseMember alone (List.mem_singleton_self t)
      (List.ne_nil_of_mem (represents.mem_processesOf.mpr tag))
    rwa [List.mem_singleton.mp single] at has
  · exact has_closureOf_of_seed (List.mem_singleton_self t) (alone t (List.mem_singleton_self t))

/-- **What is kept are the members of the set of the method.** -/
theorem keeps_members (represents : r.Represents s options) (holds : Oracle)
    (known : ∀ t ∈ enabled, t < s.transitions.size) :
    r.Keeps enabled holds fun t => (r.members enabled holds (seedOf enabled)).has t = true := by
  refine keeps_of_flags (represents.inside known) (flags_eq_map fun t single => ?_)
  subst single
  exact represents.has_members_alone (known t (List.mem_singleton_self t))

end Represents

end Reducer

end StateSpace

/-
**A reduction depends on which transitions are enabled, not on how they are listed.**

* `TransitionSystem.Kept` — what a reduction keeps, read off the description for either method.
  `Reducer.Represents.keeps_kept` says that it is what a reducer keeps.
* `TransitionSystem.kept_congr` — it is the same for two lists with the same entries, since the
  seeds (`TransitionSystem.seed_congr`) and the rules (`TransitionSystem.demands_congr`) are.
* `Reducer.reduce_same_entries` — so a transition has the same flag wherever it stands in them; one
  that is listed alone is kept, as it is when it is listed again and again.
-/

import StateSpace.Proofs.Reduction.Components
import StateSpace.Proofs.Reduction.Least

namespace StateSpace

namespace TransitionSystem

variable {s : TransitionSystem} {processLocal : Bool} {options : Options}
  {enabled first second : List Nat} {holds : Oracle} {t : Nat}

/-- **What a reduction keeps**: for the method `base` what is linked to a seed, for the stubborn
sets what the least enabled transition leads to. -/
def Kept (s : TransitionSystem) (options : Options) (enabled : List Nat) (holds : Oracle)
    (t : Nat) : Prop :=
  match options.method with
  | .base => s.Linked options.processLocal enabled t
  | .stubbornSet => ∃ seed ∈ enabled, (∀ u ∈ enabled, seed ≤ u) ∧
      Relation.ReflTransGen (s.Demands options.processLocal enabled holds) seed t

/-- The least enabled transition is kept. -/
theorem kept_of_least {process : Nat} (tag : s.HasTag t process) (fires : t ∈ enabled)
    (lowest : ∀ u ∈ enabled, t ≤ u) : s.Kept options enabled holds t := by
  unfold Kept
  split
  · exact (Seed.of_least tag fires lowest).linked
  · exact ⟨t, fires, lowest, .refl⟩

/-! ### Lists with the same entries -/

section Same

variable (same : ∀ t, t ∈ first ↔ t ∈ second)

include same

theorem Demands.congr {u : Nat} (asked : s.Demands processLocal first holds t u) :
    s.Demands processLocal second holds t u := by
  cases asked with
  | interferes fires neighbour => exact .interferes ((same t).mp fires) neighbour
  | conflicts fires fires' conflicts =>
    exact .conflicts ((same t).mp fires) ((same u).mp fires') conflicts
  | unguarded disabled free neighbour =>
    exact .unguarded (fun fires => disabled ((same t).mpr fires)) free neighbour
  | enables disabled decides enables =>
    exact .enables (fun fires => disabled ((same t).mpr fires)) decides enables

theorem demands_congr :
    s.Demands processLocal first holds = s.Demands processLocal second holds := by
  funext t u
  exact propext ⟨Demands.congr same, Demands.congr fun t => (same t).symm⟩

/-- **What is kept depends on which transitions are enabled.** -/
theorem kept_congr : s.Kept options first holds t ↔ s.Kept options second holds t := by
  unfold Kept
  split
  · simp only [Linked, seed_congr Iff.rfl same, same]
  · simp only [demands_congr same, same]

end Same

end TransitionSystem

namespace Reducer

variable {s : TransitionSystem} {options : Options} {r : Reducer} {enabled : List Nat}

/-- **A reducer for a system keeps what the description tells.** -/
theorem Represents.keeps_kept (represents : r.Represents s options) (holds : Oracle)
    (known : ∀ t ∈ enabled, t < s.transitions.size) :
    r.Keeps enabled holds (s.Kept options enabled holds) := by
  refine (represents.keeps_members holds known).congr fun t member => ?_
  rw [members, represents.options_eq, TransitionSystem.Kept]
  cases options.method with
  | base => exact represents.has_baseMembers_iff known
  | stubbornSet =>
    refine (represents.has_stubbornMembers_iff known (seedOf_mem member)).trans ?_
    constructor
    · exact fun leads => ⟨seedOf enabled, seedOf_mem member, fun u => seedOf_le, leads⟩
    · rintro ⟨seed, fires, lowest, leads⟩
      rwa [seedOf_eq fires lowest]

/-- **A transition has the same flag wherever it is listed.** Take a reducer for a system, with
either method, two lists of transitions of the system with the same entries, in any order and any
number of times, and anything known of the guards. What a reduction keeps of the one list it keeps
of the other. A transition that is listed alone is kept, and so is one listed several times. -/
theorem reduce_same_entries {s : TransitionSystem} {options : Options} {r : Reducer}
    (made : ofSystem s options = .ok r) {first second : List Nat}
    (known : ∀ t ∈ first, t < s.transitions.size) (same : ∀ t, t ∈ first ↔ t ∈ second)
    (holds : Oracle) :
    (∃ keeps, r.Keeps first holds keeps ∧ r.Keeps second holds keeps) ∧
    ∀ t < s.transitions.size, ∀ more,
      r.Keeps (List.replicate (more + 1) t) holds fun _ => True := by
  have represents := represents_of_ofSystem made
  have known' : ∀ t ∈ second, t < s.transitions.size :=
    fun t member => known t ((same t).mpr member)
  refine ⟨⟨s.Kept options first holds, represents.keeps_kept holds known, ?_⟩,
    fun t inside more => ?_⟩
  · exact (represents.keeps_kept holds known').congr
      fun t _ => (TransitionSystem.kept_congr same).symm
  · obtain ⟨process, tag⟩ := represents.exists_hasTag inside
    have alike : ∀ u ∈ List.replicate (more + 1) t, u = t := fun u => List.eq_of_mem_replicate
    have listed : t ∈ List.replicate (more + 1) t := List.mem_replicate.mpr ⟨more.succ_ne_zero, rfl⟩
    have kept : s.Kept options (List.replicate (more + 1) t) holds t :=
      TransitionSystem.kept_of_least tag listed fun u member => (alike u member).ge
    refine (represents.keeps_kept holds fun u member => ?_).congr fun u member => ?_
    · rwa [alike u member]
    · rw [alike u member]
      exact iff_true_intro kept

/-- Beside raising the first flag, raising the second one is dropped. -/
theorem twoFlags_not_kept {enabled : List Nat} {holds : Oracle} (fires : 0 ∈ enabled) :
    ¬ twoFlags.Kept ⟨.stubbornSet, false⟩ enabled holds 1 := by
  rintro ⟨seed, _, lowest, leads⟩
  -- the seed is raising the first flag, and what it leads to is of that flag
  have odd := twoFlags_of_leads leads
  have zero := lowest 0 fires
  omega

/-- With both flags down and nothing known of the guards, raising the second flag is dropped beside
raising the first one, wherever it stands and however often. Listed alone it is kept, once or three
times. -/
theorem reduce_same_entries_twoFlags :
    ∃ r, ofSystem twoFlags ⟨.stubbornSet, false⟩ = .ok r ∧
      (∃ later, r.reduce [0, 1] (fun _ => none) = .ok ([true, false], later)) ∧
      (∃ later, r.reduce [1, 0, 1] (fun _ => none) = .ok ([false, true, false], later)) ∧
      (∃ later, r.reduce [1] (fun _ => none) = .ok ([true], later)) ∧
      ∃ later, r.reduce [1, 1, 1] (fun _ => none) = .ok ([true, true, true], later) := by
  have made : ofSystem twoFlags ⟨.stubbornSet, false⟩
      = .ok (ofAnalysis (Analysis.ofValid twoFlags) ⟨.stubbornSet, false⟩) := rfl
  have known : ∀ t ∈ [0, 1], t < twoFlags.transitions.size := by decide
  have same : ∀ t, t ∈ [0, 1] ↔ t ∈ [1, 0, 1] := by
    intro t
    simp only [List.mem_cons, List.not_mem_nil, or_false]
    omega
  obtain ⟨⟨keeps, once, again⟩, alone⟩ := reduce_same_entries made known same fun _ => none
  have kept : twoFlags.Kept ⟨.stubbornSet, false⟩ [0, 1] (fun _ => none) 0 :=
    TransitionSystem.kept_of_least ⟨_, rfl, List.mem_cons_self⟩ (by decide) (by decide)
  have dropped : ¬ twoFlags.Kept ⟨.stubbornSet, false⟩ [0, 1] (fun _ => none) 1 :=
    twoFlags_not_kept (by decide)
  have told : ∀ t ∈ [0, 1], (twoFlags.Kept ⟨.stubbornSet, false⟩ [0, 1] (fun _ => none) t ↔
      (t == 0) = true) := by
    simp [kept, dropped]
  have keepsThose := (represents_of_ofSystem made).keeps_kept (fun _ => none) known
  obtain ⟨_, reduced⟩ := keepsThose.exists_reduce told (Stats.room_initial (by decide))
  have told' : ∀ t ∈ [1, 0, 1], (keeps t ↔ (t == 0) = true) := fun t member =>
    (once.unique keepsThose (Stats.room_initial (by decide)) t ((same t).mpr member)).trans
      (told t ((same t).mpr member))
  have always : ∀ {ts : List Nat}, ∀ t ∈ ts, (True ↔ (fun _ : Nat => true) t = true) :=
    fun _ _ => iff_of_true trivial rfl
  obtain ⟨_, reduced'⟩ := again.exists_reduce told' (Stats.room_initial (by decide))
  obtain ⟨_, single⟩ :=
    (alone 1 (by decide) 0).exists_reduce always (Stats.room_initial (by decide))
  obtain ⟨_, triple⟩ :=
    (alone 1 (by decide) 2).exists_reduce always (Stats.room_initial (by decide))
  exact ⟨_, made, ⟨_, reduced⟩, ⟨_, reduced'⟩, ⟨_, single⟩, _, triple⟩

end Reducer

end StateSpace

/-
**The method `base` keeps the components of its seeds.**

* `TransitionSystem.Seed` — an enabled transition with a process that no smaller seed has. These are
  the seeds that the pass over the enabled transitions finds: `Reducer.mem_seeds_iff` says what each
  step of the pass adds, `Reducer.Represents.mem_seedsOf_iff` what comes out.
* `TransitionSystem.Linked` — a seed is linked to a transition by enabled ones that interfere one
  after the other. `Reducer.Represents.has_baseMembers_iff` says that these are the members.
* `Reducer.base_components` — so they are what a reduction keeps, all components of the seeds and
  nothing else.
-/

import StateSpace.Proofs.Reduction.Answers
import StateSpace.Proofs.Reduction.Worklist

namespace StateSpace

namespace TransitionSystem

/-- **A seed** is an enabled transition with a process that no smaller seed has. -/
def Seed (s : TransitionSystem) (enabled : List Nat) (t : Nat) : Prop :=
  t ∈ enabled ∧ ∃ process, s.HasTag t process ∧
    ∀ u, u < t → s.Seed enabled u → ¬ s.HasTag u process
termination_by t

/-- **A transition that is linked to a seed** by a chain of enabled transitions, each of which
interferes with the next. -/
def Linked (s : TransitionSystem) (processLocal : Bool) (enabled : List Nat) (t : Nat) : Prop :=
  ∃ seed, s.Seed enabled seed ∧
    Relation.ReflTransGen (fun t u => s.Interferes processLocal t u ∧ u ∈ enabled) seed t

variable {s : TransitionSystem} {processLocal : Bool} {enabled : List Nat} {t u : Nat}

theorem Seed.mem (seed : s.Seed enabled t) : t ∈ enabled := by
  rw [Seed] at seed
  exact seed.1

theorem Seed.linked (seed : s.Seed enabled t) : s.Linked processLocal enabled t :=
  ⟨t, seed, .refl⟩

/-- The least enabled transition is a seed. -/
theorem Seed.of_least {process : Nat} (tag : s.HasTag t process) (fires : t ∈ enabled)
    (lowest : ∀ u ∈ enabled, t ≤ u) : s.Seed enabled t := by
  rw [Seed]
  refine ⟨fires, process, tag, fun u less seed => ?_⟩
  exact absurd (lowest u seed.mem) (Nat.not_le_of_lt less)

/-- The seeds depend on the tags and on which transitions are enabled. -/
theorem seed_congr {s' : TransitionSystem} {first second : List Nat}
    (tags : ∀ {t process : Nat}, s.HasTag t process ↔ s'.HasTag t process)
    (same : ∀ t, t ∈ first ↔ t ∈ second) : s.Seed first t ↔ s'.Seed second t := by
  induction t using Nat.strong_induction_on with
  | h t ih =>
    rw [Seed, Seed, same t]
    refine and_congr_right fun _ => exists_congr fun process => ?_
    rw [tags]
    refine and_congr_right fun _ => forall_congr' fun u => forall_congr' fun less => ?_
    rw [ih u less, tags]

/-- An enabled transition that a linked one interferes with is linked. -/
theorem Linked.step (linked : s.Linked processLocal enabled t)
    (interferes : s.Interferes processLocal t u) (fires : u ∈ enabled) :
    s.Linked processLocal enabled u := by
  obtain ⟨seed, isSeed, chain⟩ := linked
  exact ⟨seed, isSeed, chain.tail ⟨interferes, fires⟩⟩

end TransitionSystem

namespace Reducer

variable {s : TransitionSystem} {options : Options} {r : Reducer} {enabled covered ts : List Nat}
  {t u process : Nat}

/-! ### Seeds -/

/-- **The pass over ascending transitions** picks those with a process that is neither covered
before nor one of a smaller transition that is picked. -/
theorem mem_seeds_iff (ordered : ts.Pairwise (· < ·)) :
    t ∈ r.seeds covered ts ↔
      t ∈ ts ∧ ∃ process ∈ r.analysis.processesOf t, process ∉ covered ∧
        ∀ u ∈ r.seeds covered ts, u < t → process ∉ r.analysis.processesOf u := by
  induction ts generalizing covered with
  | nil => simp [seeds]
  | cons first rest ih =>
    obtain ⟨above, later⟩ := List.pairwise_cons.mp ordered
    unfold seeds
    dsimp only
    by_cases old : (r.analysis.processesOf first).all covered.contains = true
    · rw [if_pos old, ih later, List.mem_cons]
      refine ⟨fun picked => ⟨.inr picked.1, picked.2⟩, ?_⟩
      rintro ⟨rfl | member, process, tag, new, alone⟩
      · exact absurd (List.contains_iff_mem.mp (List.all_eq_true.mp old process tag)) new
      · exact ⟨member, process, tag, new, alone⟩
    · rw [if_neg old, List.mem_cons, List.mem_cons]
      constructor
      · rintro (rfl | picked)
        · obtain ⟨process, tag, new⟩ : ∃ process ∈ r.analysis.processesOf t, process ∉ covered := by
            simpa using old
          refine ⟨.inl rfl, process, tag, new, fun u picked less => ?_⟩
          rcases List.mem_cons.mp picked with rfl | picked
          · omega
          · have := above u (mem_of_mem_seeds picked)
            omega
        · obtain ⟨member, process, tag, new, alone⟩ := (ih later).mp picked
          rw [List.mem_append, not_or] at new
          refine ⟨.inr member, process, tag, new.2, fun u picked less => ?_⟩
          rcases List.mem_cons.mp picked with rfl | picked
          · exact new.1
          · exact alone u picked less
      · rintro ⟨rfl | member, process, tag, new, alone⟩
        · exact .inl rfl
        · refine .inr ((ih later).mpr ⟨member, process, tag, ?_, fun u picked => ?_⟩)
          · rw [List.mem_append, not_or]
            exact ⟨alone first List.mem_cons_self (above t member), new⟩
          · exact alone u (List.mem_cons_of_mem _ picked)

namespace Represents

/-- **The seeds of an enabled list.** -/
theorem mem_seedsOf_iff (represents : r.Represents s options) :
    t ∈ r.seedsOf enabled ↔ s.Seed enabled t := by
  -- by induction on the transition, since being a seed depends on the smaller ones
  induction t using Nat.strong_induction_on with
  | h t ih =>
    rw [seedsOf, mem_seeds_iff (pairwise_ascending enabled), TransitionSystem.Seed, mem_ascending]
    refine and_congr_right fun _ => exists_congr fun process => ?_
    rw [represents.mem_processesOf]
    refine and_congr_right fun _ => ?_
    constructor
    · rintro ⟨_, alone⟩ u less seed tag
      exact alone u ((ih u less).mpr seed) less (represents.mem_processesOf.mpr tag)
    · intro alone
      refine ⟨List.not_mem_nil, fun u picked less tag => ?_⟩
      exact alone u less ((ih u less).mp picked) (represents.mem_processesOf.mp tag)

section Enabled

variable (represents : r.Represents s options) (known : ∀ t ∈ enabled, t < s.transitions.size)

include represents known

/-- **The members are the transitions linked to a seed.** -/
theorem has_baseMembers_iff :
    (r.baseMembers enabled).has t = true ↔ s.Linked options.processLocal enabled t := by
  have inside := represents.inside known
  have steps : (fun t u => u ∈ r.enabledNeighbours (.ofList r.transitionCount enabled) t ∧
      u < r.transitionCount) = fun t u => s.Interferes options.processLocal t u ∧ u ∈ enabled := by
    funext t u
    rw [eq_iff_iff, enabledNeighbours, List.mem_filter, represents.mem_interference,
      Members.has_ofList]
    constructor
    · rintro ⟨⟨interferes, fires, _⟩, _⟩
      exact ⟨interferes, fires⟩
    · rintro ⟨interferes, fires⟩
      exact ⟨⟨interferes, fires, inside u fires⟩, inside u fires⟩
  rw [baseMembers, has_closureOf_iff, Demanded, steps]
  refine exists_congr fun seed => ?_
  rw [represents.mem_seedsOf_iff]
  refine and_congr_right fun isSeed => and_iff_right (inside seed isSeed.mem)

end Enabled

end Represents

/-- **What the method `base` keeps.** Take a reducer for a system with this method, and a list of
enabled transitions. A reduction keeps exactly the transitions that are linked to a seed. Each
process of an enabled transition is one of a kept transition, the least enabled transition is kept,
and no kept transition interferes with an enabled one that is dropped. -/
theorem base_components {s : TransitionSystem} {options : Options} {r : Reducer}
    (made : ofSystem s options = .ok r) (method : options.method = .base) {enabled : List Nat}
    (known : ∀ t ∈ enabled, t < s.transitions.size) (holds : Oracle) :
    r.Keeps enabled holds (s.Linked options.processLocal enabled) ∧
    (∀ t ∈ enabled, ∀ process, s.HasTag t process →
      ∃ u ∈ enabled, s.Linked options.processLocal enabled u ∧ s.HasTag u process) ∧
    (∀ t ∈ enabled, (∀ u ∈ enabled, t ≤ u) → s.Linked options.processLocal enabled t) ∧
    (∀ t u, s.Linked options.processLocal enabled t → u ∈ enabled →
      ¬ s.Linked options.processLocal enabled u →
        ¬ s.Interferes options.processLocal t u ∧ ¬ s.Interferes options.processLocal u t) := by
  have represents := represents_of_ofSystem made
  refine ⟨?_, fun t member process tag => ?_, fun t member lowest => ?_,
    fun t u linked member dropped => ?_⟩
  · have keeps := represents.keeps_members holds known
    rw [members, represents.options_eq, method] at keeps
    exact keeps.congr fun t _ => represents.has_baseMembers_iff known
  · obtain ⟨u, picked, tag'⟩ := exists_seed member (represents.mem_processesOf.mpr tag)
    have seed := represents.mem_seedsOf_iff.mp picked
    exact ⟨u, seed.mem, seed.linked, represents.mem_processesOf.mp tag'⟩
  · obtain ⟨process, tag⟩ := represents.exists_hasTag (known t member)
    exact (TransitionSystem.Seed.of_least tag member lowest).linked
  · exact ⟨fun interferes => dropped (linked.step interferes member),
      fun interferes => dropped (linked.step interferes.symm member)⟩

/-! ### A handshake -/

/-- A process announces a handshake with a second one, which can also answer and take a note.
Meeting and taking the note use the same variable. -/
def handshake : TransitionSystem where
  variableCount := 3
  processCount := 2
  transitions := #[⟨"announce", [0], [], [0], []⟩, ⟨"meet", [0, 1], [], [1], []⟩,
    ⟨"answer", [1], [], [2], []⟩, ⟨"note", [1], [], [1], []⟩]
  guards := #[]
  exclusiveGuards := []

theorem handshake_hasTag {t process : Nat} :
    handshake.HasTag t process ↔ (t, process) ∈ [(0, 0), (1, 0), (1, 1), (2, 1), (3, 1)] := by
  unfold TransitionSystem.HasTag
  match t with
  | 0 | 1 | 2 | 3 => simp [handshake]
  | t + 4 => simp [handshake]

theorem handshake_writes {t v : Nat} :
    handshake.Writes t v ↔ (t, v) ∈ [(0, 0), (1, 1), (2, 2), (3, 1)] := by
  unfold TransitionSystem.Writes
  match t with
  | 0 | 1 | 2 | 3 => simp [handshake]
  | t + 4 => simp [handshake]

theorem handshake_not_reads {t v : Nat} : ¬ handshake.Reads t v := by
  rintro (⟨transition, found, member⟩ | ⟨g, _, guard, found, _⟩)
  · match t with
    | 0 | 1 | 2 | 3 => simp [handshake] at found; simp [← found] at member
    | t + 4 => simp [handshake] at found
  · simp [handshake] at found

/-- Meeting and taking the note interfere. -/
theorem handshake_interferes {t u : Nat} :
    handshake.Interferes false t u ↔ (t, u) ∈ [(1, 3), (3, 1)] := by
  have coenabled : ¬ handshake.NeverCoenabled t u := by
    rintro ⟨_, g, h, _, _, excludes⟩
    simp [TransitionSystem.Excludes, handshake] at excludes
  simp only [TransitionSystem.Interferes, TransitionSystem.Dependent, handshake_not_reads,
    handshake_writes, coenabled, and_false, false_or, or_false, not_false_eq_true, true_and,
    Bool.false_eq_true, false_and, List.mem_cons, Prod.mk.injEq, List.not_mem_nil]
  constructor
  · rintro ⟨different, v, writes, writes'⟩
    omega
  · rintro (⟨rfl, rfl⟩ | ⟨rfl, rfl⟩)
    · exact ⟨by decide, 1, by decide⟩
    · exact ⟨by decide, 1, by decide⟩

/-- All four steps are possible. Announcing and meeting bring a process each, so they are the seeds;
taking the note is linked to meeting, and answering is dropped. -/
theorem base_components_handshake :
    ∃ r, ofSystem handshake ⟨.base, false⟩ = .ok r ∧
      (∀ t, handshake.Seed [3, 2, 1, 0] t ↔ t = 0 ∨ t = 1) ∧
      ∃ later, r.reduce [3, 2, 1, 0] (fun _ => none) = .ok ([true, false, true, true], later) := by
  have made : ofSystem handshake ⟨.base, false⟩
      = .ok (ofAnalysis (Analysis.ofValid handshake) ⟨.base, false⟩) := rfl
  have known : ∀ t ∈ [3, 2, 1, 0], t < handshake.transitions.size := by decide
  obtain ⟨keeps, _⟩ := base_components made rfl known fun _ => none
  have announce : handshake.Seed [3, 2, 1, 0] 0 := by
    rw [TransitionSystem.Seed]
    exact ⟨by decide, 0, handshake_hasTag.mpr (by decide), by omega⟩
  have meet : handshake.Seed [3, 2, 1, 0] 1 := by
    rw [TransitionSystem.Seed]
    refine ⟨by decide, 1, handshake_hasTag.mpr (by decide), fun u less _ tag => ?_⟩
    rw [Nat.lt_one_iff.mp less, handshake_hasTag] at tag
    exact absurd tag (by decide)
  have seeds : ∀ t, handshake.Seed [3, 2, 1, 0] t ↔ t = 0 ∨ t = 1 := by
    intro t
    refine ⟨fun seed => ?_, ?_⟩
    · -- the second process, which the others have alone, is one of meeting
      by_contra other
      rw [TransitionSystem.Seed] at seed
      obtain ⟨_, process, tag, alone⟩ := seed
      have covered := alone 1 (by omega) meet
      simp only [handshake_hasTag, List.mem_cons, Prod.mk.injEq, List.not_mem_nil, or_false,
        true_and] at tag covered
      omega
    · rintro (rfl | rfl)
      · exact announce
      · exact meet
  have dropped : ¬ handshake.Linked false [3, 2, 1, 0] 2 := by
    rintro ⟨seed, isSeed, chain⟩
    rcases chain.cases_tail with same | ⟨u, _, interferes, _⟩
    · rw [seeds, ← same] at isSeed
      omega
    · simp [handshake_interferes] at interferes
  have note : handshake.Linked false [3, 2, 1, 0] 3 :=
    meet.linked.step (handshake_interferes.mpr (by decide)) (by decide)
  have told : ∀ t ∈ [3, 2, 1, 0], (handshake.Linked false [3, 2, 1, 0] t ↔ (t != 2) = true) := by
    simp [announce.linked, meet.linked, note, dropped]
  obtain ⟨later, reduced⟩ := keeps.exists_reduce told (Stats.room_initial (by decide))
  exact ⟨_, made, seeds, _, reduced⟩

end Reducer

end StateSpace

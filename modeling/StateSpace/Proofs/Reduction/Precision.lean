/-
**A less precise description never lets a reduction drop more.**

* `TransitionSystem.Refines` — one description is more precise than another: for the same tags and
  guards it declares fewer reads, writes and enablers, and more pairs of guards that exclude one
  another.
* `TransitionSystem.Refines.interferes`, `TransitionSystem.Refines.demands` — what interferes or is
  asked for by the more precise one is so by the other, and the seeds are the same
  (`TransitionSystem.Refines.seed_iff`). So what is kept for the one is kept for the other
  (`TransitionSystem.Refines.kept`).
* `Reducer.keeps_of_refines` — a reducer for the less precise description keeps all that one for the
  more precise description keeps.
-/

import StateSpace.Proofs.Reduction.EnabledSets

namespace StateSpace

/-- A transition that has the same tags and guards as another one, and reads and writes no more. -/
structure Transition.Refines (fine coarse : Transition) : Prop where
  processes : ∀ process, process ∈ fine.processes ↔ process ∈ coarse.processes
  guards : ∀ g, g ∈ fine.guards ↔ g ∈ coarse.guards
  reads : fine.reads ⊆ coarse.reads
  writes : fine.writes ⊆ coarse.writes

/-- A guard that reads no more than another one, and has no more enablers where both list them. -/
structure Guard.Refines (fine coarse : Guard) : Prop where
  reads : fine.reads ⊆ coarse.reads
  enablers : Option.Rel (· ⊆ ·) fine.enablers coarse.enablers

/-- **A description that is more precise than another one**, transition by transition and guard by
guard; the pairs of guards that the other one excludes are among its own. -/
structure TransitionSystem.Refines (fine coarse : TransitionSystem) : Prop where
  transitions : List.Forall₂ Transition.Refines fine.transitions.toList coarse.transitions.toList
  guards : List.Forall₂ Guard.Refines fine.guards.toList coarse.guards.toList
  exclusive : ∀ pair ∈ coarse.exclusiveGuards,
    pair ∈ fine.exclusiveGuards ∨ pair.swap ∈ fine.exclusiveGuards

/-- What an entry of an array has, its counterpart in a related array has. -/
theorem exists_getElem?_of_forall₂ {α β : Type} {R : α → β → Prop} {xs : Array α} {ys : Array β}
    (related : List.Forall₂ R xs.toList ys.toList) {p : α → Prop} {q : β → Prop}
    (carries : ∀ {x y}, R x y → p x → q y) {i : Nat} (has : ∃ x, xs[i]? = some x ∧ p x) :
    ∃ y, ys[i]? = some y ∧ q y := by
  obtain ⟨x, found, holds⟩ := has
  obtain ⟨inside, rfl⟩ := Array.getElem?_eq_some_iff.mp found
  obtain ⟨sameLength, each⟩ := List.forall₂_iff_get.mp related
  have inside' : i < ys.size := lt_of_lt_of_eq inside sameLength
  exact ⟨ys[i], Array.getElem?_eq_getElem inside', carries (each i inside inside') holds⟩

namespace TransitionSystem.Refines

variable {fine coarse : TransitionSystem} (refines : fine.Refines coarse) {t u v g h process : Nat}

include refines

/-! ### Footprints -/

theorem size_eq : fine.transitions.size = coarse.transitions.size :=
  refines.transitions.length_eq

theorem hasTag_iff : fine.HasTag t process ↔ coarse.HasTag t process :=
  ⟨exists_getElem?_of_forall₂ refines.transitions fun finer => (finer.processes process).mp,
    exists_getElem?_of_forall₂ refines.transitions.flip fun finer => (finer.processes process).mpr⟩

theorem hasGuard_iff : fine.HasGuard t g ↔ coarse.HasGuard t g :=
  ⟨exists_getElem?_of_forall₂ refines.transitions fun finer => (finer.guards g).mp,
    exists_getElem?_of_forall₂ refines.transitions.flip fun finer => (finer.guards g).mpr⟩

theorem writes (writes : fine.Writes t v) : coarse.Writes t v :=
  exists_getElem?_of_forall₂ refines.transitions (fun finer => @finer.writes v) writes

theorem guardReads (reads : fine.GuardReads g v) : coarse.GuardReads g v :=
  exists_getElem?_of_forall₂ refines.guards (fun finer => @finer.reads v) reads

theorem reads (reads : fine.Reads t v) : coarse.Reads t v := by
  rcases reads with own | ⟨g, has, reads⟩
  · exact .inl (exists_getElem?_of_forall₂ refines.transitions (fun finer => @finer.reads v) own)
  · exact .inr ⟨g, refines.hasGuard_iff.mp has, refines.guardReads reads⟩

theorem excludes (excludes : coarse.Excludes g h) : fine.Excludes g h := by
  rcases excludes with listed | listed
  · exact refines.exclusive _ listed
  · exact (refines.exclusive _ listed).symm

theorem enables (enables : fine.Enables t g) : coarse.Enables t g := by
  refine exists_getElem?_of_forall₂ refines.guards (fun {guard guard'} finer able => ?_) enables
  obtain ⟨_, enablers⟩ := guard
  obtain ⟨_, enablers'⟩ := guard'
  obtain ⟨readsMore, listed⟩ := finer
  cases listed with
  | some included => exact included able
  | none =>
    obtain ⟨v, reads, writes⟩ := able
    exact ⟨v, readsMore reads, refines.writes writes⟩

/-! ### What follows from them -/

theorem neverCoenabled (never : coarse.NeverCoenabled t u) : fine.NeverCoenabled t u := by
  obtain ⟨different, g, h, has, has', excludes⟩ := never
  exact ⟨different, g, h, refines.hasGuard_iff.mpr has, refines.hasGuard_iff.mpr has',
    refines.excludes excludes⟩

theorem dependent (dependent : fine.Dependent t u) : coarse.Dependent t u := by
  obtain ⟨v, both | both | both⟩ := dependent
  · exact ⟨v, .inl ⟨refines.writes both.1, refines.reads both.2⟩⟩
  · exact ⟨v, .inr (.inl ⟨refines.writes both.1, refines.writes both.2⟩)⟩
  · exact ⟨v, .inr (.inr ⟨refines.writes both.1, refines.reads both.2⟩)⟩

theorem conflicts (conflicts : fine.Conflicts t u) : coarse.Conflicts t u := by
  obtain ⟨different, v, writes, writes'⟩ := conflicts
  exact ⟨different, v, refines.writes writes, refines.writes writes'⟩

theorem decides_iff {holds : Oracle} : fine.Decides holds t g ↔ coarse.Decides holds t g := by
  simp only [Decides, refines.hasGuard_iff]

theorem seed_iff {enabled : List Nat} : fine.Seed enabled t ↔ coarse.Seed enabled t :=
  seed_congr refines.hasTag_iff fun _ => Iff.rfl

section ProcessLocal

variable {narrow wide : Bool} (widens : narrow = true → wide = true)

include widens

theorem interferes (interferes : fine.Interferes narrow t u) : coarse.Interferes wide t u := by
  obtain ⟨different, coenabled, meet⟩ := interferes
  refine ⟨different, fun never => coenabled (refines.neverCoenabled never), ?_⟩
  rcases meet with dependent | ⟨asked, process, tag, tag'⟩
  · exact .inl (refines.dependent dependent)
  · exact .inr ⟨widens asked, process, refines.hasTag_iff.mp tag, refines.hasTag_iff.mp tag'⟩

theorem demands {enabled : List Nat} {holds : Oracle}
    (asked : fine.Demands narrow enabled holds t u) : coarse.Demands wide enabled holds t u := by
  cases asked with
  | interferes fires neighbour => exact .interferes fires (refines.interferes widens neighbour)
  | conflicts fires fires' conflicts => exact .conflicts fires fires' (refines.conflicts conflicts)
  | unguarded disabled free neighbour =>
    exact .unguarded disabled (fun g has => free g (refines.hasGuard_iff.mpr has))
      (refines.interferes widens neighbour)
  | enables disabled decides enables =>
    exact .enables disabled (refines.decides_iff.mp decides) (refines.enables enables)

/-- **What is kept for a precise description is kept for a less precise one.** -/
theorem kept {method : Method} {enabled : List Nat} {holds : Oracle}
    (kept : fine.Kept ⟨method, narrow⟩ enabled holds t) :
    coarse.Kept ⟨method, wide⟩ enabled holds t := by
  cases method with
  | base =>
    obtain ⟨seed, isSeed, chain⟩ := kept
    refine ⟨seed, refines.seed_iff.mp isSeed, ?_⟩
    exact Relation.ReflTransGen.mono
      (fun _ _ step => ⟨refines.interferes widens step.1, step.2⟩) _ _ chain
  | stubbornSet =>
    obtain ⟨seed, fires, lowest, leads⟩ := kept
    refine ⟨seed, fires, lowest, ?_⟩
    exact Relation.ReflTransGen.mono (fun _ _ asked => refines.demands widens asked) _ _ leads

end ProcessLocal

end TransitionSystem.Refines

namespace Reducer

/-- **Coarser information never prunes more.** Take reducers with the same method for two
descriptions of which the first is the more precise one; if the first reducer counts transitions of
a common process as interfering, so does the second. Of the same enabled list, and with the same
knowledge of the guards, the second one keeps all that the first one keeps. -/
theorem keeps_of_refines {fine coarse : TransitionSystem} (refines : fine.Refines coarse)
    {method : Method} {narrow wide : Bool} (widens : narrow = true → wide = true)
    {r r' : Reducer} (made : ofSystem fine ⟨method, narrow⟩ = .ok r)
    (made' : ofSystem coarse ⟨method, wide⟩ = .ok r') {enabled : List Nat}
    (known : ∀ t ∈ enabled, t < fine.transitions.size) (holds : Oracle) :
    ∃ keeps keeps', r.Keeps enabled holds keeps ∧ r'.Keeps enabled holds keeps' ∧
      ∀ t, keeps t → keeps' t := by
  refine ⟨fine.Kept ⟨method, narrow⟩ enabled holds, coarse.Kept ⟨method, wide⟩ enabled holds,
    (represents_of_ofSystem made).keeps_kept holds known,
    (represents_of_ofSystem made').keeps_kept holds fun t member => ?_,
    fun t kept => refines.kept widens kept⟩
  rw [← refines.size_eq]
  exact known t member

/-! ### Blurred flags -/

/-- The two flags, where raising the second one is taken to change the first one as well. -/
def blurredFlags : TransitionSystem :=
  { twoFlags with
    transitions := #[⟨"raise first", [0], [], [0], [0]⟩, ⟨"raise second", [1], [], [1, 0], [1]⟩,
      ⟨"lower first", [0], [], [0], [2]⟩] }

theorem twoFlags_refines : twoFlags.Refines blurredFlags where
  transitions := by
    refine .cons ⟨?_, ?_, ?_, ?_⟩ (.cons ⟨?_, ?_, ?_, ?_⟩ (.cons ⟨?_, ?_, ?_, ?_⟩ .nil)) <;> simp
  guards := by
    refine .cons ⟨?_, ?_⟩ (.cons ⟨?_, ?_⟩ (.cons ⟨?_, ?_⟩ .nil)) <;> simp
  exclusive := by simp [blurredFlags, twoFlags]

/-- Raising and lowering the first flag are kept for the precise description, so they are kept for
the blurred one. Raising the second flag is kept for the blurred one only, since it interferes. -/
theorem keeps_of_refines_blurredFlags :
    ∃ r r', ofSystem twoFlags ⟨.stubbornSet, false⟩ = .ok r ∧
      ofSystem blurredFlags ⟨.stubbornSet, true⟩ = .ok r' ∧
      (∃ later, r.reduce [0, 1, 2] (fun _ => none) = .ok ([true, false, true], later)) ∧
      ∃ later, r'.reduce [0, 1, 2] (fun _ => none) = .ok ([true, true, true], later) := by
  have made : ofSystem twoFlags ⟨.stubbornSet, false⟩
      = .ok (ofAnalysis (Analysis.ofValid twoFlags) ⟨.stubbornSet, false⟩) := rfl
  have made' : ofSystem blurredFlags ⟨.stubbornSet, true⟩
      = .ok (ofAnalysis (Analysis.ofValid blurredFlags) ⟨.stubbornSet, true⟩) := rfl
  have known : ∀ t ∈ [0, 1, 2], t < twoFlags.transitions.size := by decide
  have room : Stats.initial.Room [0, 1, 2].length := Stats.room_initial (by decide)
  obtain ⟨keeps, keeps', first, second, implies⟩ :=
    keeps_of_refines twoFlags_refines (by decide) made made' known fun _ => none
  have raise : twoFlags.Kept ⟨.stubbornSet, false⟩ [0, 1, 2] (fun _ => none) 0 :=
    TransitionSystem.kept_of_least ⟨_, rfl, List.mem_cons_self⟩ (by decide) (by decide)
  have lower : twoFlags.Kept ⟨.stubbornSet, false⟩ [0, 1, 2] (fun _ => none) 2 :=
    ⟨0, by decide, by decide,
      .single (.interferes (by decide) (twoFlags_interferes.mpr (by decide)))⟩
  have dropped : ¬ twoFlags.Kept ⟨.stubbornSet, false⟩ [0, 1, 2] (fun _ => none) 1 :=
    twoFlags_not_kept (by decide)
  have kept : ∀ t ∈ [0, 1, 2], (twoFlags.Kept ⟨.stubbornSet, false⟩ [0, 1, 2] (fun _ => none) t ↔
      (t != 1) = true) := by
    simp [raise, lower, dropped]
  have told : ∀ t ∈ [0, 1, 2], (keeps t ↔ (t != 1) = true) := fun t member =>
    (first.unique ((represents_of_ofSystem made).keeps_kept _ known) room t member).trans
      (kept t member)
  have meets : blurredFlags.Interferes true 0 1 := by
    refine ⟨by decide, ?_, .inl ⟨0, .inr (.inl ⟨⟨_, rfl, by decide⟩, ⟨_, rfl, by decide⟩⟩)⟩⟩
    rintro ⟨_, g, h, _, _, excludes⟩
    simp [TransitionSystem.Excludes, blurredFlags, twoFlags] at excludes
  have blurred : blurredFlags.Kept ⟨.stubbornSet, true⟩ [0, 1, 2] (fun _ => none) 1 :=
    ⟨0, by decide, by decide, .single (.interferes (by decide) meets)⟩
  have told' : ∀ t ∈ [0, 1, 2], (keeps' t ↔ (fun _ : Nat => true) t = true) := by
    intro t member
    refine iff_of_true ?_ rfl
    by_cases other : t = 1
    · subst other
      exact (second.unique ((represents_of_ofSystem made').keeps_kept _ known) room 1 member).mpr
        blurred
    · exact implies t ((told t member).mpr (bne_iff_ne.mpr other))
  obtain ⟨_, reduced⟩ := first.exists_reduce told room
  obtain ⟨_, reduced'⟩ := second.exists_reduce told' room
  exact ⟨_, _, made, made', ⟨_, reduced⟩, _, reduced'⟩

end Reducer

end StateSpace

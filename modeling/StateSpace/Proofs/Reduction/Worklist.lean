/-
**Closures are least, in whatever order the work is done.**

The loop takes the first number off the worklist and admits what it asks for in the order of the
rule. A `Worklist.Round` leaves both orders open. Whatever is chosen, a member is a seed or is asked
for by a member, and a member that waits is not forgotten:

* `Worklist.Sound` — the invariant. `Worklist.Sound.round` is its step, `Worklist.Rounds.sound` what
  follows for any number of rounds.
* `Worklist.Rounds.cases` — at any time the work is done, with the members of the closure, after as
  many rounds as there are members; or there were fewer rounds and another one can be made.
* `has_closureOf_iff` — the members of a closure are the numbers that the seeds lead to.
* `isLeast_closureOf` — they are the least set that contains the seeds and what its members ask for.
-/

import Mathlib.Data.Bool.Count
import Mathlib.Logic.Relation
import Mathlib.Order.Bounds.Basic
import StateSpace.Proofs.Reduction.Closure

namespace StateSpace

/-- Two sets of numbers below the same bound with the same members are the same. -/
theorem Members.ext_has {first second : Members} (size : first.size = second.size)
    (has : ∀ x, first.has x = second.has x) : first = second := by
  refine Array.ext size fun x inside inside' => ?_
  have same := has x
  simpa [Members.has, Array.getD_eq_getD_getElem?, inside, inside'] using same

theorem Members.count_true_add_count_false (members : Members) :
    members.count true + members.count false = members.size := by
  rw [← Array.count_toList, ← Array.count_toList, List.count_true_add_count_false,
    Array.length_toList]

/-- **A seed leads to a number**: one number below the bound asks for the next. -/
def Demanded (step : Nat → List Nat) (bound : Nat) (seeds : List Nat) (x : Nat) : Prop :=
  ∃ seed ∈ seeds, seed < bound ∧ Relation.ReflTransGen (fun x y => y ∈ step x ∧ y < bound) seed x

/-- The members with work to do at the start: the seeds. -/
def seeded (bound : Nat) (seeds : List Nat) : Members × List Nat :=
  seeds.foldl admitNew (Array.replicate bound false, [])

/-- With a single seed this is the one member, and it waits. -/
theorem seeded_singleton {bound seed : Nat} (inside : seed < bound) :
    seeded bound [seed] = (.ofList bound [seed], [seed]) := by
  have absent : (Array.replicate bound false)[seed]? = some false := by
    rw [Array.getElem?_replicate, if_pos inside]
  show admitNew (Array.replicate bound false, []) seed = _
  rw [admitNew, if_pos absent]
  rfl

namespace Worklist

/-- **A round in any order**: some number is taken off the worklist, and what it asks for is
admitted one after the other. -/
inductive Round (step : Nat → List Nat) : Members × List Nat → Members × List Nat → Prop where
  | take {members : Members} {work rest asked : List Nat} {number : Nat}
    (waits : work.Perm (number :: rest)) (asks : asked.Perm (step number)) :
    Round step (members, work) (asked.foldl admitNew (members, rest))

/-- **So many rounds**, each in any order. -/
inductive Rounds (step : Nat → List Nat) :
    Nat → Members × List Nat → Members × List Nat → Prop where
  | none (state : Members × List Nat) : Rounds step 0 state state
  | more {count : Nat} {first middle last : Members × List Nat} :
    Round step first middle → Rounds step count middle last → Rounds step (count + 1) first last

variable {step : Nat → List Nat} {bound rounds : Nat} {seeds work : List Nat} {members : Members}
  {state last : Members × List Nat}

theorem Rounds.trans {more : Nat} {middle : Members × List Nat}
    (run : Rounds step rounds state middle)
    (later : Rounds step more middle last) : Rounds step (rounds + more) state last := by
  induction run with
  | none state => rwa [Nat.zero_add]
  | more round _ ih =>
    rw [Nat.add_right_comm]
    exact .more round (ih later)

theorem Rounds.eq_of_zero (run : Rounds step 0 state last) : state = last := by
  cases run
  rfl

/-- Where something waits, a round can be made. -/
theorem exists_round (waits : state.2 ≠ []) : ∃ next, Round step state next := by
  obtain ⟨members, work⟩ := state
  obtain ⟨number, rest, rfl⟩ := List.exists_cons_of_ne_nil waits
  exact ⟨_, .take (.refl _) (.refl _)⟩

/-- **The loop is a run**: it makes its rounds until nothing waits. -/
theorem exists_rounds_closure (step : Nat → List Nat) (members : Members) (work : List Nat) :
    ∃ rounds, Rounds step rounds (members, work) (closure step members work, []) := by
  fun_induction closure step members work with
  | case1 members => exact ⟨0, .none _⟩
  | case2 members number rest grown ih =>
    obtain ⟨rounds, run⟩ := ih
    exact ⟨rounds + 1, .more (.take (.refl _) (.refl _)) run⟩

/-! ### What a round costs -/

theorem Round.measure {next : Members × List Nat} (round : Round step state next) :
    next.1.count false + next.2.length + 1 = state.1.count false + state.2.length := by
  cases round with
  | @take members work rest asked number waits asks =>
    have same := admitAll_measure asked (members, rest)
    have length := waits.length_eq
    rw [List.length_cons] at length
    dsimp only at same ⊢
    omega

theorem Rounds.measure (run : Rounds step rounds state last) :
    last.1.count false + last.2.length + rounds = state.1.count false + state.2.length := by
  induction run with
  | none state => rfl
  | more round _ ih =>
    have one := round.measure
    omega

/-! ### What a round keeps -/

/-- **The invariant of the rounds**: the members are demanded, they hold the seeds, and each one
waits or has all that it asks for. -/
structure Sound (step : Nat → List Nat) (bound : Nat) (seeds : List Nat)
    (state : Members × List Nat) : Prop where
  size : state.1.size = bound
  holds : ∀ x ∈ seeds, x < bound → state.1.has x = true
  demanded : ∀ x, state.1.has x = true → Demanded step bound seeds x
  waiting : ∀ x ∈ state.2, state.1.has x = true
  settled : Settled step state.1 state.2

/-- What waits after admitting some numbers has waited before or is one of them. -/
theorem mem_work_foldl_admitNew {numbers : List Nat} {x : Nat}
    (waits : x ∈ (numbers.foldl admitNew state).2) :
    x ∈ state.2 ∨ x ∈ numbers ∧ x < state.1.size := by
  induction numbers generalizing state with
  | nil => exact .inl waits
  | cons number rest ih =>
    rcases ih waits with early | ⟨later, inside⟩
    · unfold admitNew at early
      split at early
      · next absent =>
        rcases List.mem_cons.mp early with rfl | before
        · exact .inr ⟨List.mem_cons_self, (Array.getElem?_eq_some_iff.mp absent).1⟩
        · exact .inl before
      · exact .inl early
    · rw [(admitNew_spec state number).size] at inside
      exact .inr ⟨List.mem_cons_of_mem _ later, inside⟩

theorem sound_seeded (step : Nat → List Nat) (bound : Nat) (seeds : List Nat) :
    Sound step bound seeds (seeded bound seeds) := by
  have admitted : Admitted seeds (Array.replicate bound false, []) (seeded bound seeds) :=
    foldl_admitNew_spec seeds _
  have has_iff : ∀ x, (seeded bound seeds).1.has x = true ↔ x ∈ seeds ∧ x < bound := fun x => by
    rw [admitted.has_iff, Members.has_replicate_false, Array.size_replicate]
    simp
  refine ⟨admitted.size.trans Array.size_replicate, fun x seed inside => ?_, fun x has => ?_,
    fun x waits => ?_, fun x has => .inl ?_⟩
  · exact (has_iff x).mpr ⟨seed, inside⟩
  · obtain ⟨seed, inside⟩ := (has_iff x).mp has
    exact ⟨x, seed, inside, .refl⟩
  · rcases mem_work_foldl_admitNew waits with before | ⟨seed, inside⟩
    · cases before
    · rw [Array.size_replicate] at inside
      exact (has_iff x).mpr ⟨seed, inside⟩
  · refine (admitted.fresh x has).resolve_left ?_
    simp

namespace Sound

/-- **A round keeps the invariant.** -/
theorem round {next : Members × List Nat} (sound : Sound step bound seeds state)
    (round : Round step state next) : Sound step bound seeds next := by
  cases round with
  | @take members work rest asked number waits asks =>
    have size : members.size = bound := sound.size
    have admitted := foldl_admitNew_spec asked (members, rest)
    have number_mem : number ∈ work := waits.mem_iff.mpr List.mem_cons_self
    have grown : ∀ x, (asked.foldl admitNew (members, rest)).1.has x = true ↔
        members.has x = true ∨ x ∈ step number ∧ x < bound := fun x => by
      rw [admitted.has_iff, asks.mem_iff, size]
    refine ⟨admitted.size.trans size, fun x seed inside => ?_, fun x has => ?_,
      fun x later => ?_, ?_⟩
    · exact (grown x).mpr (.inl (sound.holds x seed inside))
    · rcases (grown x).mp has with old | asked
      · exact sound.demanded x old
      · obtain ⟨seed, member, inside, leads⟩ :=
          sound.demanded number (sound.waiting number number_mem)
        exact ⟨seed, member, inside, leads.tail asked⟩
    · rcases mem_work_foldl_admitNew later with before | ⟨member, inside⟩
      · have waited := waits.mem_iff.mpr (List.mem_cons_of_mem _ before)
        exact (grown x).mpr (.inl (sound.waiting x waited))
      · exact (grown x).mpr (.inr ⟨asks.mem_iff.mp member, size ▸ inside⟩)
    · have settled : Settled step members (number :: rest) := fun x has =>
        (sound.settled x has).imp_left waits.mem_iff.mp
      refine settled.round ⟨admitted.size, fun x => ?_, admitted.fresh, admitted.kept⟩
      rw [grown, size]

/-- **When nothing waits, the members are all that the seeds lead to.** -/
theorem has_iff (sound : Sound step bound seeds (members, [])) {x : Nat} :
    members.has x = true ↔ Demanded step bound seeds x := by
  refine ⟨sound.demanded x, ?_⟩
  rintro ⟨seed, member, inside, leads⟩
  -- by induction along the chain from the seed, whose members ask for one another
  induction leads with
  | refl => exact sound.holds seed member inside
  | tail _ asked ih =>
    refine ((sound.settled _ ih).resolve_left List.not_mem_nil) _ asked.1 ?_
    exact lt_of_lt_of_eq asked.2 sound.size.symm

end Sound

theorem Rounds.sound (run : Rounds step rounds state last) (sound : Sound step bound seeds state) :
    Sound step bound seeds last := by
  induction run with
  | none state => exact sound
  | more round _ ih => exact ih (sound.round round)

theorem sound_closureOf (step : Nat → List Nat) (bound : Nat) (seeds : List Nat) :
    Sound step bound seeds (closureOf step bound seeds, []) := by
  obtain ⟨_, run⟩ := exists_rounds_closure step (seeded bound seeds).1 (seeded bound seeds).2
  exact run.sound (sound_seeded step bound seeds)

/-! ### How the work ends -/

/-- **Work that is done gives the closure**, after one round for each member. -/
theorem Rounds.eq_closureOf (run : Rounds step rounds (seeded bound seeds) (members, [])) :
    members = closureOf step bound seeds ∧ rounds = members.count true := by
  have sound := run.sound (sound_seeded step bound seeds)
  have whole := sound_closureOf step bound seeds
  refine ⟨Members.ext_has (sound.size.trans whole.size.symm) fun x => ?_, ?_⟩
  · rw [Bool.eq_iff_iff, sound.has_iff, whole.has_iff]
  · have spent := run.measure
    have start := admitAll_measure seeds (Array.replicate bound false, [])
    have all := members.count_true_add_count_false
    have size : members.size = bound := sound.size
    simp only [List.length_nil, Nat.add_zero, Array.count_replicate_self] at spent start
    unfold seeded at spent
    omega

/-- **The order does not matter**: at any time the work is done, with the members of the closure,
after as many rounds as there are members, or there were fewer and there is a next one. -/
theorem Rounds.cases (run : Rounds step rounds (seeded bound seeds) state) :
    state = (closureOf step bound seeds, []) ∧ rounds = (closureOf step bound seeds).count true ∨
      rounds < (closureOf step bound seeds).count true ∧ ∃ next, Round step state next := by
  obtain ⟨members, work⟩ := state
  by_cases idle : work = []
  · subst idle
    obtain ⟨rfl, spent⟩ := run.eq_closureOf
    exact .inl ⟨rfl, spent⟩
  · -- the loop itself can finish the work, and it takes another round for that
    obtain ⟨more, later⟩ := exists_rounds_closure step members work
    obtain ⟨same, spent⟩ := (run.trans later).eq_closureOf
    have takes : more ≠ 0 := by
      rintro rfl
      exact idle (congrArg Prod.snd later.eq_of_zero)
    refine .inr ⟨?_, exists_round idle⟩
    rw [← same, ← spent]
    omega

end Worklist

section Closures

variable {step : Nat → List Nat} {bound : Nat} {seeds : List Nat}

/-- **The members of a closure** are what the seeds lead to. -/
theorem has_closureOf_iff {x : Nat} :
    (closureOf step bound seeds).has x = true ↔ Demanded step bound seeds x :=
  (Worklist.sound_closureOf step bound seeds).has_iff

/-- **The closure is the least set that contains the seeds and what its members ask for**, if that
stays below the bound. -/
theorem isLeast_closureOf (inside : ∀ x ∈ seeds, x < bound)
    (within : ∀ x, ∀ y ∈ step x, y < bound) :
    IsLeast
      {numbers : Set Nat | (∀ x ∈ seeds, x ∈ numbers) ∧ ∀ x ∈ numbers, ∀ y ∈ step x, y ∈ numbers}
      {x | (closureOf step bound seeds).has x = true} := by
  refine ⟨⟨fun x seed => ?_, fun x has y asked => ?_⟩, fun numbers closed x has => ?_⟩
  · exact has_closureOf_of_seed seed (inside x seed)
  · exact has_closureOf_of_step has asked (within x y asked)
  · obtain ⟨seed, member, _, leads⟩ := has_closureOf_iff.mp has
    clear has
    induction leads with
    | refl => exact closed.1 seed member
    | tail _ asked ih => exact closed.2 _ ih _ asked.1

end Closures

end StateSpace

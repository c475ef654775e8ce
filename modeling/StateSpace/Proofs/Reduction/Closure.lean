/-
**The closure of a set of numbers is closed.**

A number that becomes a member is put on the worklist in the same step, so all through the loop a
member is on the worklist or has everything it asks for among the members (`Settled`). When the
worklist is empty, nothing is missing:

* `foldl_admitNew_spec` — admitting some numbers adds exactly those below the bound, and puts the
  new ones on the worklist.
* `closure_spec` — the closure keeps the members and ends with a closed set.
* `has_closureOf_of_seed`, `has_closureOf_of_step` — the seeds are members, and so is all that
  members ask for.
-/

import StateSpace.Reduction.Closure

namespace StateSpace

namespace Members

/-- A member lies below the bound. -/
theorem lt_of_has {members : Members} {number : Nat} (has : members.has number = true) :
    number < members.size := by
  refine Nat.lt_of_not_le fun beyond => ?_
  rw [Members.has, Array.getD_eq_getD_getElem?, Array.getElem?_eq_none beyond] at has
  cases has

/-- Making a number a member adds just that one, if it lies below the bound. -/
theorem has_setIfInBounds {members : Members} {number other : Nat} :
    Members.has (members.setIfInBounds number true) other = true ↔
      members.has other = true ∨ other = number ∧ number < members.size := by
  simp only [Members.has, Array.getD_eq_getD_getElem?, Array.getElem?_setIfInBounds]
  by_cases same : number = other
  · subst same
    by_cases inside : number < members.size
    · simp [inside]
    · simp [inside]
  · have different : ¬ other = number := fun equal => same equal.symm
    simp [same, different]

@[simp] theorem has_replicate_false (bound number : Nat) :
    Members.has (Array.replicate bound false) number = false := by
  simp only [Members.has, Array.getD_eq_getD_getElem?, Array.getElem?_replicate]
  split <;> rfl

theorem has_foldl_setIfInBounds (numbers : List Nat) (members : Members) (number : Nat) :
    Members.has (numbers.foldl (fun m n => m.setIfInBounds n true) members) number = true ↔
      members.has number = true ∨ number ∈ numbers ∧ number < members.size := by
  induction numbers generalizing members with
  | nil => simp
  | cons first rest ih =>
    rw [List.foldl_cons, ih, has_setIfInBounds, Array.size_setIfInBounds, List.mem_cons]
    constructor
    · rintro ((old | ⟨rfl, inside⟩) | ⟨member, inside⟩)
      · exact .inl old
      · exact .inr ⟨.inl rfl, inside⟩
      · exact .inr ⟨.inr member, inside⟩
    · rintro (old | ⟨rfl | member, inside⟩)
      · exact .inl (.inl old)
      · exact .inl (.inr ⟨rfl, inside⟩)
      · exact .inr ⟨member, inside⟩

/-- The members taken from a list are its entries below the bound. -/
theorem has_ofList {bound number : Nat} {numbers : List Nat} :
    (ofList bound numbers).has number = true ↔ number ∈ numbers ∧ number < bound := by
  rw [ofList, has_foldl_setIfInBounds]
  simp

end Members

/-- **What admitting some numbers does** to the members and the worklist. -/
structure Admitted (numbers : List Nat) (before after : Members × List Nat) : Prop where
  size : after.1.size = before.1.size
  has_iff : ∀ x, after.1.has x = true ↔
    before.1.has x = true ∨ x ∈ numbers ∧ x < before.1.size
  fresh : ∀ x, after.1.has x = true → before.1.has x = true ∨ x ∈ after.2
  kept : ∀ x ∈ before.2, x ∈ after.2

theorem admitNew_spec (state : Members × List Nat) (number : Nat) :
    Admitted [number] state (admitNew state number) := by
  unfold admitNew
  split
  · next absent =>
    refine ⟨by simp, fun x => ?_, fun x has => ?_, fun x member => List.mem_cons_of_mem _ member⟩
    · rw [Members.has_setIfInBounds, List.mem_singleton]
      exact or_congr_right (and_congr_right fun same => same ▸ Iff.rfl)
    · rcases Members.has_setIfInBounds.mp has with old | ⟨rfl, _⟩
      · exact .inl old
      · exact .inr List.mem_cons_self
  · next present =>
    refine ⟨rfl, fun x => ⟨.inl, ?_⟩, fun x has => .inl has, fun x member => member⟩
    rintro (old | ⟨same, inside⟩)
    · exact old
    · rw [List.mem_singleton] at same
      subst same
      rw [Array.getElem?_eq_getElem inside, Option.some.injEq, Bool.not_eq_false] at present
      rw [Members.has, Array.getD_eq_getD_getElem?, Array.getElem?_eq_getElem inside, present]
      rfl

/-- Admitting one number after another. -/
theorem foldl_admitNew_spec (numbers : List Nat) (state : Members × List Nat) :
    Admitted numbers state (numbers.foldl admitNew state) := by
  induction numbers generalizing state with
  | nil => exact ⟨rfl, fun x => by simp, fun x has => .inl has, fun x member => member⟩
  | cons number rest ih =>
    have first := admitNew_spec state number
    have later := ih (admitNew state number)
    rw [List.foldl_cons]
    refine ⟨later.size.trans first.size, fun x => ?_, fun x has => ?_, fun x member => ?_⟩
    · rw [later.has_iff, first.has_iff, first.size, List.mem_singleton, List.mem_cons, or_assoc,
        ← or_and_right]
    · rcases later.fresh x has with early | work
      · exact (first.fresh x early).imp_right (later.kept x)
      · exact .inr work
    · exact later.kept x (first.kept x member)

/-- **A member is on the worklist or has all it asks for.** -/
def Settled (step : Nat → List Nat) (members : Members) (work : List Nat) : Prop :=
  ∀ x, members.has x = true →
    x ∈ work ∨ ∀ y ∈ step x, y < members.size → members.has y = true

/-- One round of the closure keeps the members settled. -/
theorem Settled.round {step : Nat → List Nat} {members : Members} {number : Nat} {rest : List Nat}
    (settled : Settled step members (number :: rest)) {grown : Members × List Nat}
    (admitted : Admitted (step number) (members, rest) grown) :
    Settled step grown.1 grown.2 := by
  intro x has
  have grows : ∀ y, members.has y = true → grown.1.has y = true := fun y old =>
    (admitted.has_iff y).mpr (.inl old)
  rcases admitted.fresh x has with old | work
  · rcases settled x old with waiting | served
    · rcases List.mem_cons.mp waiting with rfl | waits
      · -- the number taken off the worklist: all that it asks for was just admitted
        refine .inr fun y asked inside => (admitted.has_iff y).mpr (.inr ⟨asked, ?_⟩)
        rw [admitted.size] at inside
        exact inside
      · exact .inl (admitted.kept x waits)
    · refine .inr fun y asked inside => grows y (served y asked ?_)
      rw [admitted.size] at inside
      exact inside
  · exact .inl work

/-- **The closure keeps the members and is closed**, if the members were settled. -/
theorem closure_spec (step : Nat → List Nat) (members : Members) (work : List Nat)
    (settled : Settled step members work) :
    (closure step members work).size = members.size ∧
      (∀ x, members.has x = true → (closure step members work).has x = true) ∧
      Settled step (closure step members work) [] := by
  -- the induction is on the rounds of the loop, each of which keeps `Settled`
  fun_induction closure step members work with
  | case1 members => exact ⟨rfl, fun x has => has, settled⟩
  | case2 members number rest grown ih =>
    have admitted : Admitted (step number) (members, rest) grown :=
      foldl_admitNew_spec (step number) (members, rest)
    obtain ⟨size, keeps, closed⟩ := ih (settled.round admitted)
    refine ⟨size.trans admitted.size, fun x has => keeps x ?_, closed⟩
    exact (admitted.has_iff x).mpr (.inl has)

/-- The closure of some seeds contains them and is closed. -/
theorem closureOf_spec (step : Nat → List Nat) (bound : Nat) (seeds : List Nat) :
    (closureOf step bound seeds).size = bound ∧
      (∀ x ∈ seeds, x < bound → (closureOf step bound seeds).has x = true) ∧
      Settled step (closureOf step bound seeds) [] := by
  have seeded := foldl_admitNew_spec seeds (Array.replicate bound false, [])
  have settled : Settled step (seeds.foldl admitNew (Array.replicate bound false, [])).1
      (seeds.foldl admitNew (Array.replicate bound false, [])).2 := by
    intro x has
    refine .inl ((seeded.fresh x has).resolve_left ?_)
    simp
  obtain ⟨size, keeps, closed⟩ := closure_spec step _ _ settled
  refine ⟨size.trans (seeded.size.trans Array.size_replicate), fun x seed inside => ?_, closed⟩
  refine keeps x ((seeded.has_iff x).mpr (.inr ⟨seed, ?_⟩))
  rwa [Array.size_replicate]

section Members

variable {step : Nat → List Nat} {bound : Nat} {seeds : List Nat}

/-- The seeds are members. -/
theorem has_closureOf_of_seed {x : Nat} (seed : x ∈ seeds) (inside : x < bound) :
    (closureOf step bound seeds).has x = true :=
  (closureOf_spec step bound seeds).2.1 x seed inside

/-- What a member asks for is a member. -/
theorem has_closureOf_of_step {x y : Nat} (has : (closureOf step bound seeds).has x = true)
    (asked : y ∈ step x) (inside : y < bound) : (closureOf step bound seeds).has y = true := by
  obtain ⟨size, _, closed⟩ := closureOf_spec step bound seeds
  rcases closed x has with waiting | served
  · cases waiting
  · refine served y asked ?_
    rwa [size]

end Members

end StateSpace

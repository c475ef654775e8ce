/-
**Closing a set of numbers under a rule.**

* `Members` — a set of the numbers below a bound, one flag per number.
* `closure` — adds to some members all that the rule `step` asks for, starting from the members
  with work to do. A round takes one number off the worklist and puts on it only numbers that
  become members in that round, so the non-members and the worklist together shrink by one
  (`admitAll_measure`).
* `closureOf` — the least set that contains some seeds and all that the rule asks for.
-/

namespace StateSpace

/-- **A set of the numbers below a bound.** -/
abbrev Members := Array Bool

namespace Members

/-- Whether a number is a member. -/
def has (members : Members) (number : Nat) : Bool :=
  members.getD number false

/-- The numbers of a list that lie below a bound. -/
def ofList (bound : Nat) (numbers : List Nat) : Members :=
  numbers.foldl (fun members number => members.setIfInBounds number true)
    (Array.replicate bound false)

end Members

/-- Makes a number that is not a member yet a member with work to do. -/
def admitNew (state : Members × List Nat) (number : Nat) : Members × List Nat :=
  if state.1[number]? = some false then (state.1.setIfInBounds number true, number :: state.2)
  else state

/-- A number that becomes a member is put on the worklist. -/
theorem admitNew_measure (state : Members × List Nat) (number : Nat) :
    (admitNew state number).1.count false + (admitNew state number).2.length
      = state.1.count false + state.2.length := by
  unfold admitNew
  split
  · next absent =>
    obtain ⟨inside, value⟩ := Array.getElem?_eq_some_iff.mp absent
    have counted : 0 < state.1.count false :=
      Array.count_pos_iff.mpr (value ▸ Array.getElem_mem inside)
    simp only [Array.setIfInBounds, dif_pos inside, List.length_cons]
    rw [Array.count_set]
    simp only [value, beq_self_eq_true, if_true]
    simp
    omega
  · rfl

/-- The same for all that a rule asks for. -/
theorem admitAll_measure (numbers : List Nat) (state : Members × List Nat) :
    (numbers.foldl admitNew state).1.count false + (numbers.foldl admitNew state).2.length
      = state.1.count false + state.2.length := by
  induction numbers generalizing state with
  | nil => rfl
  | cons number rest ih => rw [List.foldl_cons, ih, admitNew_measure]

/-- **Adds to some members all that the rule asks for**, starting from the members with work to
do. -/
def closure (step : Nat → List Nat) (members : Members) (work : List Nat) : Members :=
  match work with
  | [] => members
  | number :: rest =>
    let grown := (step number).foldl admitNew (members, rest)
    closure step grown.1 grown.2
termination_by members.count false + work.length
decreasing_by
  have measure : _ = members.count false + rest.length :=
    admitAll_measure (step number) (members, rest)
  simp only [List.length_cons]
  omega

/-- The least set of numbers below a bound that contains some seeds and all that the rule asks
for. -/
def closureOf (step : Nat → List Nat) (bound : Nat) (seeds : List Nat) : Members :=
  let seeded := seeds.foldl admitNew (Array.replicate bound false, [])
  closure step seeded.1 seeded.2

end StateSpace

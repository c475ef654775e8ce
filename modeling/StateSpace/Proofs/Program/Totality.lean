/-
**Every search of a program ends, and stays in range.**

* `Program.InRange` — images with a byte per process and variable, in which a process stands at a
  location of the program and a variable has one of its values, or zero.
* `Program.InRange.apply` — commands keep to such images, so all reachable states are among them
  (`Model.Moves.exists_inRange`).
* `Model.State.finite_inRange` — there are `Program.spaceSize` of them at most.
* `Outcome.InBounds` — what an outcome then keeps to, and `Model.Fires.inBounds` that it does.
* `Model.explore_total` — a search ends, in bounds, whatever its policy, reduction, ceiling and
  state to stop at are.
-/

import Mathlib.Data.Fintype.BigOperators
import StateSpace.Proofs.Program.Deadlocks
import StateSpace.Proofs.Program.Lenient
import StateSpace.Proofs.Search.Outcomes

namespace StateSpace

open Explorable

/-! ### Images in range -/

namespace Program

/-- **An image in range**: a program starts with zeros also where it has no location or no value. -/
structure InRange (p : Program) (bytes : List UInt8) : Prop where
  size : bytes.length = p.imageSize
  location : ∀ {process : Nat} {byte : UInt8}, process < p.processCount →
    bytes[process]? = some byte → byte = 0 ∨ byte < p.locationCount
  value : ∀ {index : Nat} {byte : UInt8}, bytes[p.processCount + index]? = some byte →
    byte = 0 ∨ byte < p.domain

/-- How many images can be in range. -/
def spaceSize (p : Program) : Nat :=
  max 1 p.locationCount.toNat ^ p.processCount * max 1 p.domain.toNat ^ p.variableCount

variable {p : Program} {bytes : List UInt8}

theorem inRange_zero (p : Program) : p.InRange (List.replicate p.imageSize 0) := by
  have zero : ∀ {place : Nat} {byte : UInt8},
      (List.replicate p.imageSize (0 : UInt8))[place]? = some byte → byte = 0 := by
    intro place byte found
    exact (List.mem_replicate.mp (List.mem_of_getElem? found)).2
  exact ⟨List.length_replicate, fun _ found => .inl (zero found), fun found => .inl (zero found)⟩

/-- A byte after a write is the written one, or it was there before. -/
theorem getElem?_set_cases {place other : Nat} {written byte : UInt8}
    (found : (bytes.set place written)[other]? = some byte) :
    place = other ∧ byte = written ∨ place ≠ other ∧ bytes[other]? = some byte := by
  by_cases same : place = other
  · rw [List.getElem?_set, if_pos same, Option.ite_none_right_eq_some, Option.some.injEq] at found
    exact .inl ⟨same, found.2.symm⟩
  · rw [List.getElem?_set_ne same] at found
    exact .inr ⟨same, found⟩

namespace InRange

/-- A process may move to any location. -/
theorem set_location (inRange : p.InRange bytes) {process : Nat} {target : UInt8}
    (known : process < p.processCount) (inside : target < p.locationCount) :
    p.InRange (bytes.set process target) where
  size := by rw [List.length_set, inRange.size]
  location {other byte} known' found := by
    rcases getElem?_set_cases found with ⟨_, rfl⟩ | ⟨_, before⟩
    · exact .inr inside
    · exact inRange.location known' before
  value {index byte} found := by
    rcases getElem?_set_cases found with ⟨same, _⟩ | ⟨_, before⟩
    · omega
    · exact inRange.value before

/-- A variable may be set to any value. -/
theorem set_value (inRange : p.InRange bytes) {binding : Binding}
    (inside : binding.value < p.domain) :
    p.InRange (bytes.set (p.slot binding) binding.value) where
  size := by rw [List.length_set, inRange.size]
  location {process byte} known found := by
    rcases getElem?_set_cases found with ⟨same, _⟩ | ⟨_, before⟩
    · unfold slot at same
      omega
    · exact inRange.location known before
  value {index byte} found := by
    rcases getElem?_set_cases found with ⟨_, rfl⟩ | ⟨_, before⟩
    · exact .inr inside
    · exact inRange.value before

/-- **A command keeps to images in range.** -/
theorem apply (inRange : p.InRange bytes) {command : Command} (fits : command.Fits p) :
    p.InRange (command.apply p bytes) := by
  have moved := inRange.set_location fits.process fits.target
  unfold Command.apply
  cases updated : command.update with
  | none => exact moved
  | some binding =>
    exact moved.set_value (fits.bindings binding (by simp [Command.bindings, updated])).2

end InRange

end Program

/-! ### How many states there are -/

namespace Model

variable {m : Model}

namespace State

theorem inRange_fire {x : m.State} (inRange : m.program.InRange x.1) (t : Nat) :
    m.program.InRange (m.semantics.fire x t).1 := by
  cases used : m.program.commands[t]? with
  | none => rwa [fire_of_none used]
  | some command =>
    rw [val_fire used]
    exact inRange.apply (m.fits_of_getElem? used)

/-- A byte of a state, as a digit. -/
def digit (x : m.State) (place : Nat) (base : UInt8) : Fin (max 1 base.toNat) :=
  ⟨(x.1[place]?.getD 0).toNat % max 1 base.toNat, Nat.mod_lt _ (by omega)⟩

/-- The locations of the processes and the values of the variables. -/
def digits (x : m.State) :
    (Fin m.program.processCount → Fin (max 1 m.program.locationCount.toNat)) ×
      (Fin m.program.variableCount → Fin (max 1 m.program.domain.toNat)) :=
  (fun process => x.digit process m.program.locationCount,
    fun index => x.digit (m.program.processCount + index) m.program.domain)

/-- A byte that is zero or below the base is known by its digit. -/
theorem getElem?_eq_of_digit {x y : m.State} {place : Nat} {base : UInt8}
    (inRange : ∀ byte, x.1[place]? = some byte → byte = 0 ∨ byte < base)
    (inRange' : ∀ byte, y.1[place]? = some byte → byte = 0 ∨ byte < base)
    (same : x.digit place base = y.digit place base) : x.1[place]? = y.1[place]? := by
  have small : ∀ byte : UInt8, byte = 0 ∨ byte < base → byte.toNat < max 1 base.toNat := by
    rintro byte (rfl | below)
    · exact Nat.lt_of_lt_of_le Nat.one_pos (Nat.le_max_left _ _)
    · exact Nat.lt_of_lt_of_le below (Nat.le_max_right _ _)
  have sizes : x.1.length = y.1.length := x.2.trans y.2.symm
  by_cases inside : place < x.1.length
  · have inside' : place < y.1.length := sizes ▸ inside
    have digits := congrArg Fin.val same
    simp only [digit, List.getElem?_eq_getElem inside, List.getElem?_eq_getElem inside',
      Option.getD_some] at digits
    rw [Nat.mod_eq_of_lt (small _ (inRange _ (List.getElem?_eq_getElem inside))),
      Nat.mod_eq_of_lt (small _ (inRange' _ (List.getElem?_eq_getElem inside')))] at digits
    rw [List.getElem?_eq_getElem inside, List.getElem?_eq_getElem inside',
      UInt8.toNat_inj.mp digits]
  · rw [List.getElem?_eq_none (Nat.le_of_not_lt inside),
      List.getElem?_eq_none (sizes ▸ Nat.le_of_not_lt inside)]

/-- **A state in range is known by its digits.** -/
theorem digits_injOn : Set.InjOn digits {x : m.State | m.program.InRange x.1} := by
  intro x inRange y inRange' same
  obtain ⟨locations, values⟩ := Prod.ext_iff.mp same
  refine Subtype.ext (List.ext_getElem? fun place => ?_)
  by_cases process : place < m.program.processCount
  · exact getElem?_eq_of_digit (fun _ => inRange.location process)
      (fun _ => inRange'.location process) (congrFun locations ⟨place, process⟩)
  · obtain ⟨index, rfl⟩ := Nat.exists_eq_add_of_le (Nat.le_of_not_lt process)
    by_cases known : index < m.program.variableCount
    · exact getElem?_eq_of_digit (fun _ => inRange.value) (fun _ => inRange'.value)
        (congrFun values ⟨index, known⟩)
    · have beyond : m.program.imageSize ≤ m.program.processCount + index :=
        Nat.add_le_add_left (Nat.le_of_not_lt known) _
      rw [List.getElem?_eq_none ((Nat.le_of_eq x.2).trans beyond),
        List.getElem?_eq_none ((Nat.le_of_eq y.2).trans beyond)]

theorem finite_inRange (m : Model) :
    {x : m.State | m.program.InRange x.1}.Finite ∧
      {x : m.State | m.program.InRange x.1}.ncard ≤ m.program.spaceSize := by
  have finite : {x : m.State | m.program.InRange x.1}.Finite :=
    Set.Finite.of_injOn (Set.mapsTo_univ digits _) digits_injOn Set.finite_univ
  refine ⟨finite, ?_⟩
  refine (Set.ncard_le_ncard_of_injOn digits (fun _ _ => Set.mem_univ _) digits_injOn
    Set.finite_univ).trans (Nat.le_of_eq ?_)
  rw [Set.ncard_univ, Nat.card_eq_fintype_card, Fintype.card_prod, Fintype.card_fun,
    Fintype.card_fun, Fintype.card_fin, Fintype.card_fin, Fintype.card_fin, Fintype.card_fin]
  rfl

end State

section Moves

variable {G : Type} [Explorable G] {graph : G}

/-- **All reachable states are in range.** -/
theorem Moves.exists_inRange (moves : m.Moves graph) {state : Image}
    (reachable : Reachable graph state) :
    ∃ x : m.State, m.program.InRange x.1 ∧ x.image = state := by
  refine reachable.induct (fun state => ∃ x : m.State, m.program.InRange x.1 ∧ x.image = state)
    (fun first begins => ?_) fun before target _ known edge => ?_
  · exact ⟨State.zero m, m.program.inRange_zero, (moves.starts begins).symm⟩
  · obtain ⟨x, inRange, rfl⟩ := known
    obtain ⟨t, same⟩ := moves.steps edge
    exact ⟨_, State.inRange_fire inRange t, same.symm⟩

theorem Moves.inRange (moves : m.Moves graph) {state : Image} (reachable : Reachable graph state) :
    m.program.InRange state.bytes := by
  obtain ⟨x, inRange, rfl⟩ := moves.exists_inRange reachable
  exact inRange

theorem Moves.ncard_le_spaceSize (moves : m.Moves graph) :
    {state | Reachable graph state}.ncard ≤ m.program.spaceSize := by
  obtain ⟨finite, few⟩ := State.finite_inRange m
  exact (finite_reachable_of_image State.image finite fun _ reachable =>
    moves.exists_inRange reachable).2.trans few

end Moves

end Model

/-! ### Outcomes in bounds -/

/-- **An outcome in bounds**: all states that were looked at or reported are in range and no more
than there are, and it is a failure only for a fault that is not tolerated, or for want of room for
the states that were looked at. -/
structure Outcome.InBounds {G : Type} (p : Program) (policy : Policy)
    (crowded : List Image → Prop) (outcome : Outcome G) : Prop where
  looked : ∀ state ∈ outcome.looked, p.InRange state.bytes
  deadlocks : ∀ report, outcome.result = .ok report →
    ∀ state ∈ report.deadlocks.toList, p.InRange state.bytes
  stoppedAt : ∀ report state, outcome.result = .ok report → report.stoppedAt = some state →
    p.InRange state.bytes
  states : ∀ report, outcome.result = .ok report → report.states ≤ p.spaceSize
  fails : ∀ failure, outcome.result = .error failure →
    (policy = .strict ∧ ∃ error, failure = .error (.runtime error)) ∨
      failure = .abort .overflow ∧ crowded outcome.looked

namespace Model

variable {m : Model}

section Fires

variable {G H : Type} [Explorable G] {graph : G} {policy : Policy}
  {members : m.State → Nat → Prop}

/-- **What is true of a graph of commands is in bounds.** -/
theorem Fires.inBounds (fires : m.Fires graph policy members)
    (starts : m.interpreter.initialImage = .ok (State.zero m).image)
    {crowded : List Image → Prop} {outcome : Outcome H}
    (faithful : outcome.Faithful graph crowded) :
    outcome.InBounds m.program policy crowded where
  looked state member := fires.moves.inRange (faithful.reachable state member)
  deadlocks report succeeded state stuck :=
    fires.moves.inRange (faithful.reachable state (faithful.deadlocks succeeded state stuck))
  stoppedAt report state succeeded stopped :=
    fires.moves.inRange (faithful.reachable state (faithful.stoppedAt succeeded stopped))
  states report succeeded := by
    rw [faithful.states succeeded]
    exact (length_le_ncard faithful.nodup faithful.reachable fires.moves.finite_reachable.1).trans
      fires.moves.ncard_le_spaceSize
  fails failure failed := by
    rcases faithful.fails failed with begins | ⟨state, member, fails⟩ | full
    · rw [fires.starts, starts] at begins
      cases begins
    · obtain ⟨x, rfl⟩ := fires.moves.isState (faithful.reachable state member)
      rcases fires.next_cases x with ⟨isStrict, _, error, failed⟩ | ⟨_, _, succeeds, _⟩
      · rw [failed, Except.error.injEq] at fails
        exact .inl ⟨isStrict, error, fails.symm⟩
      · rw [succeeds] at fails
        cases fails
    · exact .inr full

/-- Two bounds on the number of states. -/
theorem Fires.ncard_le (fires : m.Fires graph policy members) :
    {state | Reachable graph state}.ncard ≤ min m.program.spaceSize m.program.stateBound :=
  Nat.le_min.mpr ⟨fires.moves.ncard_le_spaceSize, fires.moves.finite_reachable.2⟩

/-- **A search ends, and is true of the graph**, if the answers depend on the state alone. -/
theorem Fires.exists_faithful (fires : m.Fires graph policy members)
    (functional : Functional graph) (limits : Limits) (done : Nat → Image → Bool)
    (crowded : List Image → Prop) {bound : Nat}
    (enough : {state | Reachable graph state}.ncard ≤ bound) :
    ∃ outcome, explore bound graph limits done = some outcome ∧
      outcome.Faithful graph crowded := by
  obtain ⟨outcome, ends⟩ :=
    explore_ends functional.steady fires.moves.apart fires.moves.finite_reachable.1
  exact ⟨outcome, ends bound enough,
    faithful_of_explore functional.steady fires.moves.apart (ends bound enough) crowded⟩

/-- A graph that forgets fires the same commands. -/
theorem Fires.frozen (fires : m.Fires graph policy members) :
    m.Fires (Frozen.mk graph) policy members where
  starts := fires.starts
  fires := fires.fires

end Fires

/-- **A reduced search ends, and is true of the reduced graph**, or it breaks off at states that are
not countable. -/
theorem exists_faithful_reduced {i : Interpreter} (executes : m.Executes i)
    (memory : m.system.fitsMemory = true) (policy : Policy) (options : Options) (limits : Limits)
    (done : Nat → Image → Bool) {bound : Nat}
    (enough : {state | Reachable (m.reducedGraph i policy options .initial) state}.ncard ≤ bound) :
    ∃ outcome, explore bound (m.reducedGraph i policy options .initial) limits done
        = some outcome ∧
      outcome.Faithful (m.reducedGraph i policy options .initial)
        fun looked => ¬ i.Countable looked := by
  have fires := fires_reduced executes memory policy options
  have tame := tame_reduced executes memory policy options
  rw [← Frozen.reachable_eq] at enough
  obtain ⟨outcome, explored, faithful⟩ := fires.frozen.exists_faithful (Frozen.functional _) limits
    done (fun looked => ¬ i.Countable looked) enough
  have same : ∀ state, m.IsState state → next (Frozen.mk (m.reducedGraph i policy options .initial))
      state = next (m.reducedGraph i policy options .initial) state := fun _ _ => rfl
  obtain ⟨outcome', ended, alike⟩ := tame.explore_lockstep (fun _ => rfl) rfl (fun _ _ => rfl)
    (fun state isKnown => (same state isKnown).trans (tame.next_eq isKnown))
    (fun _ begins => ⟨_, fires.moves.starts begins⟩) fires.frozen.moves.closed explored
  exact ⟨outcome', ended, alike.faithful faithful.of_frozen⟩

end Model

/-- The graph of an interpreter, reduced or not. -/
def Interpreted.build (i : Interpreter) (policy : Policy) :
    Option Options → Except Failure Interpreted
  | none => .ok (full i policy)
  | some options => reduced i policy options

namespace Model

/-- **Every search of a program ends.** Take a program with a process that is accepted and whose
images can be allocated, and its full graph, or a reduced one if the analysis fits in memory. Under
any policy, with any ceiling and any states to stop at, the search of it ends. All states that it
looks at or reports are in range, and they are no more than `max 1 locations ^ processes` times
`max 1 domain ^ variables`; and where to stop is asked about such states only. It fails under the
strict policy only, for a fault, unless it is a reduced search whose statistics have no room for the
states that it looks at. -/
theorem explore_total {p : Program} {m : Model} (accepted : ofProgram p = .ok m)
    (inhabited : 0 < p.processCount) (allocated : p.imageSize < allocationLimit)
    (policy : Policy) (reduction : Option Options)
    (memory : reduction ≠ none → m.system.fitsMemory = true) :
    ∃ graph, Interpreted.build m.interpreter policy reduction = .ok graph ∧
      ∀ (limits : Limits) (done : Nat → Image → Bool), ∃ outcome,
        (∀ bound other, min p.spaceSize p.stateBound ≤ bound →
          (∀ count state, p.InRange state.bytes → other count state = done count state) →
          explore bound graph limits other = some outcome) ∧
        outcome.InBounds p policy fun looked =>
          reduction ≠ none ∧ ¬ m.interpreter.Countable looked := by
  have executes := m.executes_interpreter
  obtain rfl := program_of_ofProgram accepted
  have starts := initialImage_of_allocated inhabited allocated
  cases reduction with
  | none =>
    have fires := fires_full executes policy
    refine ⟨_, rfl, fun limits done => ?_⟩
    obtain ⟨outcome, explored, faithful⟩ := fires.exists_faithful
      (Interpreted.functional_full m.interpreter policy) limits done _ fires.ncard_le
    have inBounds := fires.inBounds starts faithful
    exact ⟨outcome, fun bound other enough agree => explore_congr (explore_mono explored enough)
      fun count state member => agree count state (inBounds.looked state member), inBounds⟩
  | some options =>
    have memory := memory (Option.some_ne_none options)
    have fires := fires_reduced executes memory policy options
    refine ⟨_, reduced_eq executes memory policy options, fun limits done => ?_⟩
    obtain ⟨outcome, explored, faithful⟩ :=
      exists_faithful_reduced executes memory policy options limits done fires.ncard_le
    have inBounds := fires.inBounds starts faithful
    refine ⟨outcome, fun bound other enough agree => explore_congr (explore_mono explored enough)
      fun count state member => agree count state (inBounds.looked state member), ?_⟩
    simpa only [ne_eq, reduceCtorEq, not_false_eq_true, true_and] using inBounds

/-- Two processes that take two locks, told to stop at the second state and with a ceiling. -/
theorem explore_total_crossedLocks :
    ∃ graph, Interpreted.build crossedLocksModel.interpreter .strict (some ⟨.stubbornSet, true⟩)
        = .ok graph ∧
      ∃ outcome, explore 36 graph ⟨some 3⟩ (fun count _ => count == 2) = some outcome ∧
        outcome.InBounds crossedLocks .strict fun looked =>
          some (⟨.stubbornSet, true⟩ : Options) ≠ none ∧
            ¬ crossedLocksModel.interpreter.Countable looked := by
  have accepted : ofProgram crossedLocks = .ok crossedLocksModel := rfl
  obtain ⟨graph, built, total⟩ := explore_total accepted (by decide) (by decide) .strict
    (some ⟨.stubbornSet, true⟩) fun _ => by cbv
  obtain ⟨outcome, ends, inBounds⟩ := total ⟨some 3⟩ fun count _ => count == 2
  exact ⟨graph, built, outcome, ends 36 _ (Nat.min_le_left _ _) fun _ _ _ => rfl, inBounds⟩

end Model

end StateSpace

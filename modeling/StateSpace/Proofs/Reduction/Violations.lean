/-
**When a reduction misses a violation.**

Some transitions are forbidden, for what they read. A violation is a state in which a forbidden
transition is enabled. Firing only the enabled members of closed sets, one may pass by a violation:
a transition on the way to it may be put off again and again.

* `Semantics.ViolationAhead` — a run of allowed transitions leads to a violation.
* `Semantics.Conforms.violationAhead_step` — where no member is forbidden, a member can be fired
  such that the violation comes nearer, or the run to it is the same as before and no member.
* `Semantics.Conforms.exists_pruned_cycle` — among finitely many states this goes on for ever only
  along a cycle, in every state of which one and the same run is put off.
-/

import Mathlib.Data.Fintype.Card
import Mathlib.Data.Set.Finite.Basic
import Mathlib.Logic.Relation
import StateSpace.Proofs.Reduction.Stubborn

namespace StateSpace

namespace Semantics

variable {State Value : Type} {sem : Semantics State Value} {s : TransitionSystem}

/-- A run of allowed transitions leads to a state in which another one is enabled that is not. -/
def ViolationAhead (sem : Semantics State Value) (allowed : State → Nat → Prop) (x : State)
    (ts : List Nat) (t : Nat) : Prop :=
  ∃ y, (sem.restrict allowed).Run x ts y ∧ sem.enabled y t ∧ ¬ allowed y t

/-- **Firing a member where a run to a violation is put off**, in a state that is reached by firing
allowed members only. -/
def PrunedStep (sem : Semantics State Value) (allowed members : State → Nat → Prop)
    (start : State) (ts : List Nat) (t : Nat) (x y : State) : Prop :=
  (∃ us, ((sem.restrict allowed).restrict members).Run start us x) ∧
    sem.ViolationAhead allowed x ts t ∧ (∀ v ∈ ts ++ [t], ¬ members x v) ∧
      ∃ u, sem.enabled x u ∧ members x u ∧ y = sem.fire x u

/-- Something is enabled where a violation is ahead. -/
theorem ViolationAhead.exists_enabled {allowed : State → Nat → Prop} {x : State} {ts : List Nat}
    {t : Nat} (ahead : sem.ViolationAhead allowed x ts t) : ∃ u, sem.enabled x u := by
  obtain ⟨y, run, enabled, _⟩ := ahead
  cases run with
  | nil => exact ⟨t, enabled⟩
  | cons first _ => exact ⟨_, first.1⟩

/-- **One step towards a violation.** A member that is fired along the way is fired now. If there is
none, any enabled member is independent of all that is fired, of the forbidden transition too, and
the way stays as it is. -/
theorem Conforms.violationAhead_step (conforms : sem.Conforms s) (wellFormed : s.WellFormed)
    {allowed : State → Nat → Prop} (isLocal : sem.Local s allowed) {x : State}
    {members : Nat → Prop} (closed : sem.Closed s x members)
    (key : ∀ t, sem.enabled x t → ∃ u, sem.enabled x u ∧ members u)
    (clean : ∀ t, sem.enabled x t → members t → allowed x t) {ts : List Nat} {t : Nat}
    (ahead : sem.ViolationAhead allowed x ts t) :
    ∃ u, sem.enabled x u ∧ members u ∧
      ((∃ rest, rest.length < ts.length ∧ sem.ViolationAhead allowed (sem.fire x u) rest t) ∨
        (∀ v ∈ ts ++ [t], ¬ members v) ∧ sem.ViolationAhead allowed (sem.fire x u) ts t) := by
  obtain ⟨first, firstEnabled⟩ := ahead.exists_enabled
  obtain ⟨y, run, enabled, forbidden⟩ := ahead
  by_cases fires : ∃ u ∈ ts, members u
  · obtain ⟨u, rest, fired, member, moved, shorter⟩ :=
      (conforms.stubborn_restrict_of_closed wellFormed isLocal closed).exists_front run fires
    exact ⟨u, fired.1, member, .inl ⟨rest, by omega, y, moved, enabled, forbidden⟩⟩
  · have outside : ∀ u ∈ ts, ¬ members u := fun u fired member => fires ⟨u, fired, member⟩
    have apart : ∀ u, members u → sem.enabled x u → ∀ v ∈ ts, s.Dependent u v →
        s.NeverCoenabled u v := fun u member here v fired dependent =>
      closed.apart member here (outside v fired) dependent
    -- a forbidden member would have been forbidden, or disabled, all the way
    have leftOut : ¬ members t := by
      intro member
      by_cases here : sem.enabled x t
      · have same := (conforms.run_restrict_comm wellFormed isLocal run here
          (apart t member here)).2.1
        exact forbidden (same.mpr (clean t here member))
      · exact conforms.not_enabled_of_closed wellFormed closed member here run.of_restrict outside
          enabled
    have putOff : ∀ v ∈ ts ++ [t], ¬ members v := by
      intro v fired
      rcases List.mem_append.mp fired with inRun | last
      · exact outside v inRun
      · rw [List.mem_singleton.mp last]
        exact leftOut
    obtain ⟨u, fired, member⟩ := key first firstEnabled
    obtain ⟨stays, _, moved⟩ :=
      conforms.run_restrict_comm wellFormed isLocal run fired (apart u member fired)
    have independent : ¬ s.Dependent t u := fun dependent =>
      conforms.not_neverCoenabled stays enabled
        (closed.apart member fired leftOut dependent.symm)
    have still := conforms.enabled_fire wellFormed enabled stays independent
    have same := conforms.local_fire_iff wellFormed isLocal stays independent
    exact ⟨u, fired, member, .inr ⟨putOff, sem.fire y u, moved, still,
      fun isAllowed => forbidden (same.mp isAllowed)⟩⟩

/-- **A reduction that misses a violation goes round in a circle**, and puts off one and the same
run to a violation all the way. -/
theorem Conforms.exists_pruned_cycle (conforms : sem.Conforms s) (wellFormed : s.WellFormed)
    {allowed members : State → Nat → Prop} (isLocal : sem.Local s allowed)
    (closed : ∀ x, sem.Closed s x (members x))
    (key : ∀ x t, sem.enabled x t → ∃ u, sem.enabled x u ∧ members x u) {start : State}
    (finite : {x | ∃ us, ((sem.restrict allowed).restrict members).Run start us x}.Finite)
    (clean : ∀ x us, ((sem.restrict allowed).restrict members).Run start us x →
      ∀ t, sem.enabled x t → members x t → allowed x t)
    {ts : List Nat} {t : Nat} (ahead : sem.ViolationAhead allowed start ts t) :
    ∃ ts x, Relation.TransGen (sem.PrunedStep allowed members start ts t) x x := by
  by_contra acyclic
  let Passed := {x | ∃ us, ((sem.restrict allowed).restrict members).Run start us x}
  have : Finite Passed := finite
  -- without a circle the steps that put off a certain run come to an end
  have wellFounded : ∀ ts, WellFounded fun y x : Passed =>
      Relation.TransGen (sem.PrunedStep allowed members start ts t) x.1 y.1 := by
    intro ts
    have : IsTrans Passed fun y x =>
        Relation.TransGen (sem.PrunedStep allowed members start ts t) x.1 y.1 :=
      ⟨fun _ _ _ later before => before.trans later⟩
    have : Std.Irrefl fun y x : Passed =>
        Relation.TransGen (sem.PrunedStep allowed members start ts t) x.1 y.1 :=
      ⟨fun x circle => acyclic ⟨ts, x.1, circle⟩⟩
    exact Finite.wellFounded_of_trans_of_irrefl _
  -- by induction on the length of the run, and for each run along those steps
  have never : ∀ length, ∀ ts : List Nat, ts.length = length →
      ∀ x : Passed, ¬ sem.ViolationAhead allowed x.1 ts t := by
    intro length
    induction length using Nat.strong_induction_on with
    | _ length nearer =>
      rintro ts rfl x
      induction x using (wellFounded ts).induction with
      | _ x further =>
        intro ahead
        obtain ⟨us, run⟩ := x.2
        obtain ⟨u, fired, member, progress⟩ := conforms.violationAhead_step wellFormed isLocal
          (closed x.1) (key x.1) (clean x.1 us run) ahead
        have isAllowed := clean x.1 us run u fired member
        have step : ((sem.restrict allowed).restrict members).Run x.1 [u] (sem.fire x.1 u) :=
          .cons ⟨⟨fired, isAllowed⟩, member⟩ (.nil _)
        rcases progress with ⟨rest, shorter, closer⟩ | ⟨putOff, same⟩
        · exact nearer rest.length shorter rest rfl ⟨_, us ++ [u], run.append step⟩ closer
        · exact further ⟨_, us ++ [u], run.append step⟩
            (.single ⟨⟨us, run⟩, ahead, putOff, u, fired, member, rfl⟩) same
  exact never ts.length ts rfl ⟨start, [], .nil start⟩ ahead

end Semantics

end StateSpace

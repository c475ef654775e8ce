/-
**What systems of a given description do.**

* `Semantics` — states with variables, guards that hold or not, transitions that are enabled or not
  and, fired, lead to a state.
* `Semantics.Conforms` — the semantics keeps to the footprints that a description declares. This is
  all that the reductions rely on.
* `Semantics.Run` — a state reached by firing a list of transitions, each where it is enabled.
* `Semantics.restrict` — the same semantics with some of the transitions forbidden, and
  `Semantics.Local` what may decide on that without getting in the way of a reduction: the variables
  that a transition reads.
* `Semantics.Conforms.enabled_fire`, `Semantics.Conforms.fire_comm` — of two independent enabled
  transitions neither disables the other, and they lead to the same state in either order.
* `Semantics.Conforms.run_restrict_comm` — an enabled transition that is independent of all that is
  fired along a run stays enabled and may as well be fired first.
* `Semantics.Conforms.run_holds_eq_false` — a false guard stays false along a run of transitions
  that cannot make it true.
-/

import StateSpace.Proofs.Analysis.Relations

namespace StateSpace

/-- **A system that is executed**: what its states hold, and what its transitions do. -/
structure Semantics (State Value : Type) where
  /-- The value of a variable. -/
  value : State → Nat → Value
  /-- Whether a guard holds. -/
  holds : State → Nat → Bool
  /-- Whether a transition is enabled. -/
  enabled : State → Nat → Prop
  /-- The state after firing a transition. -/
  fire : State → Nat → State

namespace Semantics

variable {State Value : Type}

/-- **A semantics that keeps to the declared footprints.** -/
structure Conforms (sem : Semantics State Value) (s : TransitionSystem) : Prop where
  /-- A state is what its variables hold. -/
  ext : ∀ {x y : State}, (∀ v < s.variableCount, sem.value x v = sem.value y v) → x = y
  /-- A transition is enabled where all its guards hold. -/
  enabled_iff : ∀ {x : State} {t : Nat}, sem.enabled x t ↔
    t < s.transitions.size ∧ ∀ g, s.HasGuard t g → sem.holds x g = true
  /-- A guard depends on the variables it reads. -/
  holds_congr : ∀ {x y : State} {g : Nat}, g < s.guards.size →
    (∀ v, s.GuardReads g v → sem.value x v = sem.value y v) → sem.holds x g = sem.holds y g
  /-- Firing changes only what is written. -/
  frame : ∀ {x : State} {t v : Nat}, sem.enabled x t → v < s.variableCount → ¬ s.Writes t v →
    sem.value (sem.fire x t) v = sem.value x v
  /-- What is written depends on what the transition and its guards read. -/
  fire_congr : ∀ {x y : State} {t v : Nat}, sem.enabled x t → sem.enabled y t →
    (∀ w, s.Reads t w → sem.value x w = sem.value y w) → s.Writes t v →
    sem.value (sem.fire x t) v = sem.value (sem.fire y t) v
  /-- Exclusive guards never hold together. -/
  exclusive : ∀ {x : State} {g h : Nat}, (g, h) ∈ s.exclusiveGuards →
    ¬ (sem.holds x g = true ∧ sem.holds x h = true)
  /-- Where the enablers of a guard are declared, only they make it true. -/
  enablers : ∀ {x : State} {t g : Nat} {guard : Guard} {declared : List Nat},
    s.guards[g]? = some guard → guard.enablers = some declared → sem.enabled x t →
    sem.holds x g = false → sem.holds (sem.fire x t) g = true → t ∈ declared

/-- **A run**: transitions fired one after the other, each where it is enabled. -/
inductive Run (sem : Semantics State Value) : State → List Nat → State → Prop where
  | nil (x : State) : Run sem x [] x
  | cons {x y : State} {t : Nat} {ts : List Nat} :
    sem.enabled x t → Run sem (sem.fire x t) ts y → Run sem x (t :: ts) y

namespace Run

variable {sem : Semantics State Value}

theorem append {x y z : State} {first second : List Nat} (before : sem.Run x first y)
    (after : sem.Run y second z) : sem.Run x (first ++ second) z := by
  induction before with
  | nil x => exact after
  | cons enabled _ ih => exact .cons enabled (ih after)

/-- A run can be cut at any point. -/
theorem split {x z : State} {first second : List Nat} (run : sem.Run x (first ++ second) z) :
    ∃ y, sem.Run x first y ∧ sem.Run y second z := by
  induction first generalizing x with
  | nil => exact ⟨x, .nil x, run⟩
  | cons t rest ih =>
    cases run with
    | cons enabled later =>
      obtain ⟨y, before, after⟩ := ih later
      exact ⟨y, .cons enabled before, after⟩

end Run

/-! ### Forbidden transitions -/

/-- The semantics in which only some of the transitions may be fired in a state. -/
def restrict (sem : Semantics State Value) (allowed : State → Nat → Prop) :
    Semantics State Value :=
  { sem with enabled := fun x t => sem.enabled x t ∧ allowed x t }

@[simp] theorem restrict_true (sem : Semantics State Value) :
    sem.restrict (fun _ _ => True) = sem := by
  simp only [restrict, and_true]

/-- A run of some of the transitions is a run. -/
theorem Run.of_restrict {sem : Semantics State Value} {allowed : State → Nat → Prop} {x y : State}
    {ts : List Nat} (run : (sem.restrict allowed).Run x ts y) : sem.Run x ts y := by
  induction run with
  | nil x => exact .nil x
  | cons enabled _ ih => exact .cons enabled.1 ih

/-- **A property of transitions that is decided by what they read.** -/
def Local (sem : Semantics State Value) (s : TransitionSystem) (property : State → Nat → Prop) :
    Prop :=
  ∀ {x y : State} {t : Nat}, (∀ v, s.Reads t v → sem.value x v = sem.value y v) →
    (property x t ↔ property y t)

/-! ### Independent transitions -/

namespace Conforms

variable {sem : Semantics State Value} {s : TransitionSystem}

/-- Firing an independent transition leaves alone what a transition reads. -/
theorem value_fire_of_reads (conforms : sem.Conforms s) {x : State} {t u v : Nat}
    (fired : sem.enabled x u) (inside : v < s.variableCount) (independent : ¬ s.Dependent t u)
    (reads : s.Reads t v) : sem.value (sem.fire x u) v = sem.value x v :=
  conforms.frame fired inside fun writes => independent ⟨v, .inr (.inr ⟨writes, reads⟩)⟩

/-- **An independent transition does not disable.** -/
theorem enabled_fire (conforms : sem.Conforms s) (wellFormed : s.WellFormed) {x : State}
    {t u : Nat} (enabled : sem.enabled x t) (fired : sem.enabled x u)
    (independent : ¬ s.Dependent t u) : sem.enabled (sem.fire x u) t := by
  obtain ⟨inside, guards⟩ := conforms.enabled_iff.mp enabled
  refine conforms.enabled_iff.mpr ⟨inside, fun g has => ?_⟩
  have known : g < s.guards.size := by
    obtain ⟨transition, found, member⟩ := has
    exact (wellFormed.transitions found).guards g member
  rw [← guards g has]
  refine conforms.holds_congr known fun v reads => ?_
  have readsIt : s.Reads t v := .inr ⟨g, has, reads⟩
  exact conforms.value_fire_of_reads fired (readsIt.lt_variableCount wellFormed) independent readsIt

/-- What a transition writes is the same before and after an independent one. -/
theorem value_fire_fire (conforms : sem.Conforms s) (wellFormed : s.WellFormed) {x : State}
    {t u v : Nat} (enabled : sem.enabled x t) (fired : sem.enabled x u)
    (independent : ¬ s.Dependent t u) (writes : s.Writes t v) :
    sem.value (sem.fire (sem.fire x u) t) v = sem.value (sem.fire x t) v := by
  have after := conforms.enabled_fire wellFormed enabled fired independent
  refine conforms.fire_congr after enabled (fun w reads => ?_) writes
  exact conforms.value_fire_of_reads fired (reads.lt_variableCount wellFormed) independent reads

/-- **Independent transitions lead to the same state in either order.** -/
theorem fire_comm (conforms : sem.Conforms s) (wellFormed : s.WellFormed) {x : State} {t u : Nat}
    (first : sem.enabled x t) (second : sem.enabled x u) (independent : ¬ s.Dependent t u) :
    sem.fire (sem.fire x t) u = sem.fire (sem.fire x u) t := by
  have independent' : ¬ s.Dependent u t := fun dependent => independent dependent.symm
  have firstLater := conforms.enabled_fire wellFormed first second independent
  have secondLater := conforms.enabled_fire wellFormed second first independent'
  refine conforms.ext fun v inside => ?_
  by_cases firstWrites : s.Writes t v
  · have untouched : ¬ s.Writes u v := fun secondWrites =>
      independent ⟨v, .inr (.inl ⟨firstWrites, secondWrites⟩)⟩
    rw [conforms.frame secondLater inside untouched,
      conforms.value_fire_fire wellFormed first second independent firstWrites]
  · rw [conforms.frame firstLater inside firstWrites]
    by_cases secondWrites : s.Writes u v
    · exact conforms.value_fire_fire wellFormed second first independent' secondWrites
    · rw [conforms.frame secondLater inside secondWrites, conforms.frame first inside firstWrites,
        conforms.frame second inside secondWrites]

/-- An independent transition does not change what is decided by the reads of a transition. -/
theorem local_fire_iff (conforms : sem.Conforms s) (wellFormed : s.WellFormed)
    {property : State → Nat → Prop} (isLocal : sem.Local s property) {x : State} {t u : Nat}
    (fired : sem.enabled x u) (independent : ¬ s.Dependent t u) :
    property (sem.fire x u) t ↔ property x t :=
  isLocal fun _ reads =>
    conforms.value_fire_of_reads fired (reads.lt_variableCount wellFormed) independent reads

/-- Transitions that are enabled together are not declared never to be. -/
theorem not_neverCoenabled (conforms : sem.Conforms s) {x : State} {t u : Nat}
    (first : sem.enabled x t) (second : sem.enabled x u) : ¬ s.NeverCoenabled t u := by
  rintro ⟨_, g, h, has, hasOther, excludes⟩
  have firstHolds := (conforms.enabled_iff.mp first).2 g has
  have secondHolds := (conforms.enabled_iff.mp second).2 h hasOther
  rcases excludes with forward | backward
  · exact conforms.exclusive forward ⟨firstHolds, secondHolds⟩
  · exact conforms.exclusive backward ⟨secondHolds, firstHolds⟩

/-! ### Runs -/

/-- **A transition that everything fired is independent of can be fired first**, and what its reads
decide stays as it is. It is enough that dependent transitions are never enabled together with it:
as long as it is enabled they are not fired. -/
theorem run_restrict_comm (conforms : sem.Conforms s) (wellFormed : s.WellFormed)
    {allowed : State → Nat → Prop} (isLocal : sem.Local s allowed) {t : Nat} {x y : State}
    {ts : List Nat} (run : (sem.restrict allowed).Run x ts y) (enabled : sem.enabled x t)
    (apart : ∀ u ∈ ts, s.Dependent t u → s.NeverCoenabled t u) :
    sem.enabled y t ∧ (allowed y t ↔ allowed x t) ∧
      (sem.restrict allowed).Run (sem.fire x t) ts (sem.fire y t) := by
  induction run with
  | nil x => exact ⟨enabled, Iff.rfl, .nil _⟩
  | @cons x y u ts fires later ih =>
    obtain ⟨fired, isAllowed⟩ := fires
    have independent : ¬ s.Dependent t u := fun dependent =>
      conforms.not_neverCoenabled enabled fired (apart u List.mem_cons_self dependent)
    have independent' : ¬ s.Dependent u t := fun dependent => independent dependent.symm
    obtain ⟨stays, same, moved⟩ := ih (conforms.enabled_fire wellFormed enabled fired independent)
      fun u' member => apart u' (List.mem_cons_of_mem _ member)
    have firedLater := conforms.enabled_fire wellFormed fired enabled independent'
    have allowedLater := (conforms.local_fire_iff wellFormed isLocal enabled independent').mpr
      isAllowed
    refine ⟨stays, ?_, .cons ⟨firedLater, allowedLater⟩ ?_⟩
    · exact same.trans (conforms.local_fire_iff wellFormed isLocal fired independent)
    · have commutes : sem.fire (sem.fire x t) u = sem.fire (sem.fire x u) t :=
        conforms.fire_comm wellFormed enabled fired independent
      show (sem.restrict allowed).Run (sem.fire (sem.fire x t) u) ts (sem.fire y t)
      rw [commutes]
      exact moved

/-- A transition that cannot make a guard true does not. -/
theorem fire_holds_eq_false (conforms : sem.Conforms s) (wellFormed : s.WellFormed) {x : State}
    {t g : Nat} (known : g < s.guards.size) (fired : sem.enabled x t) (unable : ¬ s.Enables t g)
    (fails : sem.holds x g = false) : sem.holds (sem.fire x t) g = false := by
  have found : s.guards[g]? = some s.guards[g] := Array.getElem?_eq_getElem known
  cases declared : s.guards[g].enablers with
  | some listed =>
    refine Bool.eq_false_iff.mpr fun holds => unable ⟨_, found, ?_⟩
    rw [declared]
    exact conforms.enablers found declared fired fails holds
  | none =>
    rw [← fails]
    refine conforms.holds_congr known fun v reads => ?_
    obtain ⟨guard, found', readsIt⟩ := reads
    refine conforms.frame fired ((wellFormed.guards found').reads v readsIt) fun writes => ?_
    rw [found, Option.some.injEq] at found'
    refine unable ⟨_, found, ?_⟩
    rw [declared]
    exact ⟨v, found' ▸ readsIt, writes⟩

/-- **A guard stays false along a run of transitions that cannot make it true.** -/
theorem run_holds_eq_false (conforms : sem.Conforms s) (wellFormed : s.WellFormed) {g : Nat}
    (known : g < s.guards.size) {x y : State} {ts : List Nat} (run : sem.Run x ts y)
    (unable : ∀ u ∈ ts, ¬ s.Enables u g) (fails : sem.holds x g = false) :
    sem.holds y g = false := by
  induction run with
  | nil x => exact fails
  | cons fired _ ih =>
    refine ih (fun u member => unable u (List.mem_cons_of_mem _ member)) ?_
    exact conforms.fire_holds_eq_false wellFormed known fired (unable _ List.mem_cons_self) fails

end Conforms

end Semantics

end StateSpace

/-
**Stubborn sets.**

A set of transitions is stubborn in a state (`Semantics.Stubborn`) if nothing that is fired outside
it matters to its members: those enabled in the state stay enabled and may as well be fired first,
the others stay disabled.

* `Semantics.exists_dead_before` — if in every state only the enabled members of a stubborn set are
  fired, one gets stuck on the way to every deadlock, or at it. Along a run to the deadlock the
  first member of the set can be moved to the front, and the rest of the run is shorter.
* `Semantics.Closed` — two local conditions on a set: an enabled member comes with all that it
  depends on and that may be enabled together with it, a disabled one with all that can make one of
  its false guards true.
* `Semantics.Conforms.stubborn_restrict_of_closed` — in a conforming semantics they make a set
  stubborn, also if transitions are forbidden for what they read.
* `Reducer.closed_closureOf_demands` — what the reducer's rules are applied to until nothing is
  asked for meets both conditions, whatever is known of the guards.
* `Reducer.stubborn_stubbornMembers` — so the sets that it computes are stubborn.
* `Reducer.stubbornMembers_along_run` — the same, spelled out along a run.
-/

import StateSpace.Proofs.Reduction.Closure
import StateSpace.Proofs.Reduction.Semantics
import StateSpace.Reduction.Reducer

namespace StateSpace

namespace Semantics

variable {State Value : Type}

/-! ### Stubborn sets and deadlocks -/

/-- **Nothing fired outside the set matters to its members.** -/
structure Stubborn (sem : Semantics State Value) (x : State) (members : Nat → Prop) : Prop where
  commutes : ∀ {t : Nat} {ts : List Nat} {y : State}, members t → sem.enabled x t →
    sem.Run x ts y → (∀ u ∈ ts, ¬ members u) →
    sem.enabled y t ∧ sem.Run (sem.fire x t) ts (sem.fire y t)
  stays_disabled : ∀ {t : Nat} {ts : List Nat} {y : State}, members t → ¬ sem.enabled x t →
    sem.Run x ts y → (∀ u ∈ ts, ¬ members u) → ¬ sem.enabled y t

/-- A list with a member of a set has a first one. -/
theorem exists_first_member {members : Nat → Prop} {ts : List Nat} (some : ∃ t ∈ ts, members t) :
    ∃ before t after, ts = before ++ t :: after ∧ members t ∧ ∀ u ∈ before, ¬ members u := by
  induction ts with
  | nil => simp at some
  | cons first rest ih =>
    by_cases here : members first
    · exact ⟨[], first, rest, rfl, here, by simp⟩
    · obtain ⟨t, member, found⟩ := some
      rcases List.mem_cons.mp member with rfl | later
      · exact absurd found here
      · obtain ⟨before, t, after, rfl, found, outside⟩ := ih ⟨t, later, found⟩
        refine ⟨first :: before, t, after, rfl, found, fun u member => ?_⟩
        rcases List.mem_cons.mp member with rfl | earlier
        · exact here
        · exact outside u earlier

/-- **A member that is fired along a run can be fired first**, the first one at least. -/
theorem Stubborn.exists_front {sem : Semantics State Value} {x y : State} {members : Nat → Prop}
    (stubborn : sem.Stubborn x members) {ts : List Nat} (run : sem.Run x ts y)
    (fires : ∃ t ∈ ts, members t) :
    ∃ t rest, sem.enabled x t ∧ members t ∧ sem.Run (sem.fire x t) rest y ∧
      rest.length + 1 = ts.length := by
  obtain ⟨before, t, after, rfl, member, outside⟩ := exists_first_member fires
  obtain ⟨z, first, later⟩ := run.split
  cases later with
  | cons enabledThere last =>
    have enabled : sem.enabled x t := by
      refine Classical.byContradiction fun disabled => ?_
      exact stubborn.stays_disabled member disabled first outside enabledThere
    have moved := (stubborn.commutes member enabled first outside).2
    refine ⟨t, before ++ after, enabled, member, moved.append last, ?_⟩
    simp only [List.length_append, List.length_cons]
    omega

/-- **Where only members of stubborn sets are fired, one gets stuck on the way to every deadlock**,
if not at it. -/
theorem exists_dead_before {sem : Semantics State Value} {members : State → Nat → Prop}
    (stubborn : ∀ x, sem.Stubborn x (members x)) {x dead : State} {ts : List Nat}
    (run : sem.Run x ts dead) (isDead : ∀ t, ¬ sem.enabled dead t) :
    ∃ kept y rest, (sem.restrict members).Run x kept y ∧
      (∀ t, ¬ (sem.restrict members).enabled y t) ∧ sem.Run y rest dead := by
  -- by induction on the length of the run: moving a member to the front and firing it leaves a
  -- run that is shorter by one
  obtain ⟨length, bound⟩ : ∃ length, ts.length = length := ⟨_, rfl⟩
  induction length generalizing x ts with
  | zero =>
    rw [List.length_eq_zero_iff] at bound
    subst bound
    cases run
    exact ⟨[], dead, [], .nil _, fun t enabled => isDead t enabled.1, .nil _⟩
  | succ length ih =>
    by_cases fires : ∃ t ∈ ts, members x t
    · obtain ⟨t, rest, enabled, member, moved, shorter⟩ := (stubborn x).exists_front run fires
      obtain ⟨kept, y, rest', reduced, stuck, later⟩ := ih moved (by omega)
      exact ⟨t :: kept, y, rest', .cons ⟨enabled, member⟩ reduced, stuck, later⟩
    · refine ⟨[], x, ts, .nil x, fun t enabled => isDead t ?_, run⟩
      exact ((stubborn x).commutes enabled.2 enabled.1 run
        fun u fired member => fires ⟨u, fired, member⟩).1

/-! ### Local conditions -/

/-- **What makes a set stubborn**, as far as it can be seen in the state itself. -/
structure Closed (sem : Semantics State Value) (s : TransitionSystem) (x : State)
    (members : Nat → Prop) : Prop where
  interference : ∀ {t u : Nat}, members t → sem.enabled x t → t ≠ u → s.Dependent t u →
    ¬ s.NeverCoenabled t u → members u
  enabling : ∀ {t : Nat}, members t → ¬ sem.enabled x t →
    ∃ g, s.HasGuard t g ∧ sem.holds x g = false ∧ ∀ u, s.Enables u g → members u

/-- What is fired outside a closed set is never enabled together with a member that depends on
it. -/
theorem Closed.apart {sem : Semantics State Value} {s : TransitionSystem} {x : State}
    {members : Nat → Prop} (closed : sem.Closed s x members) {t u : Nat} (member : members t)
    (enabled : sem.enabled x t) (outside : ¬ members u) (dependent : s.Dependent t u) :
    s.NeverCoenabled t u := by
  refine Classical.byContradiction fun coenabled => outside ?_
  refine closed.interference member enabled ?_ dependent coenabled
  rintro rfl
  exact outside member

namespace Conforms

variable {sem : Semantics State Value} {s : TransitionSystem}

/-- A disabled member of a closed set stays disabled while nothing in the set is fired. -/
theorem not_enabled_of_closed (conforms : sem.Conforms s) (wellFormed : s.WellFormed) {x y : State}
    {members : Nat → Prop} (closed : sem.Closed s x members) {t : Nat} {ts : List Nat}
    (member : members t) (disabled : ¬ sem.enabled x t) (run : sem.Run x ts y)
    (outside : ∀ u ∈ ts, ¬ members u) : ¬ sem.enabled y t := by
  obtain ⟨g, has, fails, enablers⟩ := closed.enabling member disabled
  have known : g < s.guards.size := by
    obtain ⟨transition, found, inside⟩ := has
    exact (wellFormed.transitions found).guards g inside
  have still : sem.holds y g = false :=
    conforms.run_holds_eq_false wellFormed known run
      (fun u fired enables => outside u fired (enablers u enables)) fails
  intro later
  rw [(conforms.enabled_iff.mp later).2 g has] at still
  cases still

/-- **Closed sets are stubborn**, also if transitions are forbidden for what they read. -/
theorem stubborn_restrict_of_closed (conforms : sem.Conforms s) (wellFormed : s.WellFormed)
    {allowed : State → Nat → Prop} (isLocal : sem.Local s allowed) {x : State}
    {members : Nat → Prop} (closed : sem.Closed s x members) :
    (sem.restrict allowed).Stubborn x members where
  commutes {t ts y} member enabled run outside := by
    obtain ⟨stays, same, moved⟩ := conforms.run_restrict_comm wellFormed isLocal run enabled.1
      fun u fired dependent => closed.apart member enabled.1 (outside u fired) dependent
    exact ⟨⟨stays, same.mpr enabled.2⟩, moved⟩
  stays_disabled {t ts y} member disabled run outside := by
    by_cases enabled : sem.enabled x t
    · -- it is forbidden, and stays so
      obtain ⟨_, same, _⟩ := conforms.run_restrict_comm wellFormed isLocal run enabled
        fun u fired dependent => closed.apart member enabled (outside u fired) dependent
      exact fun later => disabled ⟨enabled, same.mp later.2⟩
    · have stays := conforms.not_enabled_of_closed wellFormed closed member enabled
        run.of_restrict outside
      exact fun later => stays later.1

/-- Closed sets are stubborn. -/
theorem stubborn_of_closed (conforms : sem.Conforms s) (wellFormed : s.WellFormed) {x : State}
    {members : Nat → Prop} (closed : sem.Closed s x members) : sem.Stubborn x members := by
  have stubborn : (sem.restrict fun _ _ => True).Stubborn x members :=
    conforms.stubborn_restrict_of_closed wellFormed (fun _ => Iff.rfl) closed
  rwa [restrict_true] at stubborn

/-- A transition of the system that is disabled has a false guard. -/
theorem exists_false_guard (conforms : sem.Conforms s) {x : State} {t : Nat}
    (inside : t < s.transitions.size) (disabled : ¬ sem.enabled x t) :
    ∃ g, s.HasGuard t g ∧ sem.holds x g = false := by
  refine Classical.byContradiction fun none => disabled (conforms.enabled_iff.mpr ⟨inside, ?_⟩)
  intro g has
  refine Bool.not_eq_false _ |>.mp fun fails => none ⟨g, has, fails⟩

end Conforms

/-- **An oracle that tells the truth about the guards in a state, or nothing.** -/
def Truthful (sem : Semantics State Value) (x : State) (oracle : Oracle) : Prop :=
  ∀ g, oracle g = none ∨ oracle g = some (sem.holds x g)

end Semantics

/-! ### The reducer's sets -/

namespace Reducer

variable {State Value : Type} {sem : Semantics State Value} {s : TransitionSystem} {x : State}
  {enabled : List Nat} {oracle : Oracle}

/-- Of the guards that decide what a disabled transition asks for, one is false. -/
theorem exists_decisive_guard (conforms : sem.Conforms s) (options : Options)
    (truthful : sem.Truthful x oracle) {t : Nat} (inside : t < s.transitions.size)
    (disabled : ¬ sem.enabled x t) :
    ∃ g ∈ (ofAnalysis (Analysis.ofValid s) options).decisiveGuards oracle t,
      s.HasGuard t g ∧ sem.holds x g = false := by
  simp only [decisiveGuards]
  cases found : ((ofAnalysis (Analysis.ofValid s) options).analysis.guardsOf t).find?
      fun g => oracle g == some false with
  | some g =>
    refine ⟨g, List.mem_singleton_self g, ?_⟩
    refine ⟨Analysis.mem_guardsOf.mp (List.mem_of_find?_eq_some found), ?_⟩
    have answer := List.find?_some found
    rw [beq_iff_eq] at answer
    rcases truthful g with unknown | known
    · rw [unknown] at answer
      cases answer
    · rw [known, Option.some.injEq] at answer
      exact answer
  | none =>
    obtain ⟨g, has, fails⟩ := conforms.exists_false_guard inside disabled
    refine ⟨g, List.mem_filter.mpr ⟨Analysis.mem_guardsOf.mpr has, ?_⟩, has, fails⟩
    rcases truthful g with unknown | known
    · rw [unknown]
      rfl
    · rw [known, fails]
      rfl

/-- **What the rules are applied to until nothing is asked for is closed.** -/
theorem closed_closureOf_demands (conforms : sem.Conforms s) (wellFormed : s.WellFormed)
    (options : Options) (listed : ∀ t, t ∈ enabled ↔ sem.enabled x t)
    (truthful : sem.Truthful x oracle) (seeds : List Nat) :
    sem.Closed s x fun t => (closureOf
      ((ofAnalysis (Analysis.ofValid s) options).demands
        (.ofList (ofAnalysis (Analysis.ofValid s) options).transitionCount enabled) oracle)
      (ofAnalysis (Analysis.ofValid s) options).transitionCount seeds).has t = true := by
  have count : (ofAnalysis (Analysis.ofValid s) options).transitionCount = s.transitions.size :=
    Analysis.transitionCount_ofValid
  have fires : ∀ t, (Members.ofList (ofAnalysis (Analysis.ofValid s) options).transitionCount
      enabled).has t = true ↔ sem.enabled x t := by
    intro t
    rw [Members.has_ofList, listed, count, and_iff_left_iff_imp]
    exact fun isEnabled => (conforms.enabled_iff.mp isEnabled).1
  refine ⟨fun {t u} member isEnabled different dependent coenabled => ?_,
    fun {t} member disabled => ?_⟩
  · have asked : u ∈ (ofAnalysis (Analysis.ofValid s) options).demands
        (.ofList (ofAnalysis (Analysis.ofValid s) options).transitionCount enabled) oracle t := by
      rw [demands, if_pos ((fires t).mpr isEnabled)]
      refine List.mem_append.mpr (.inl ?_)
      exact Analysis.mem_interference wellFormed different dependent coenabled
    refine has_closureOf_of_step member asked ?_
    rw [count]
    obtain ⟨v, both | both | both⟩ := dependent
    · exact both.2.lt
    · exact both.2.lt
    · exact both.1.lt
  · have inside : t < s.transitions.size := by
      have below := Members.lt_of_has member
      rwa [(closureOf_spec _ _ seeds).1, count] at below
    obtain ⟨g, decisive, has, fails⟩ :=
      exists_decisive_guard conforms options truthful inside disabled
    refine ⟨g, has, fails, fun u enables => ?_⟩
    have guarded : ((ofAnalysis (Analysis.ofValid s) options).analysis.guardsOf t).isEmpty
        = false := by
      rw [List.isEmpty_eq_false_iff_exists_mem]
      exact ⟨g, Analysis.mem_guardsOf.mpr has⟩
    have asked : u ∈ (ofAnalysis (Analysis.ofValid s) options).demands
        (.ofList (ofAnalysis (Analysis.ofValid s) options).transitionCount enabled) oracle t := by
      rw [demands, if_neg fun isEnabled => disabled ((fires t).mp isEnabled), guarded,
        if_neg Bool.false_ne_true]
      refine List.mem_flatMap.mpr ⟨g, decisive, ?_⟩
      exact (Analysis.mem_enablersOf wellFormed).mpr enables
    refine has_closureOf_of_step member asked ?_
    rw [count]
    exact enables.lt wellFormed

/-- **The set that the reducer computes is stubborn.** -/
theorem stubborn_stubbornMembers (conforms : sem.Conforms s) (wellFormed : s.WellFormed)
    (options : Options) (listed : ∀ t, t ∈ enabled ↔ sem.enabled x t)
    (truthful : sem.Truthful x oracle) (seed : Nat) :
    sem.Stubborn x fun t => ((ofAnalysis (Analysis.ofValid s) options).stubbornMembers enabled
      oracle seed).has t = true :=
  conforms.stubborn_of_closed wellFormed
    (closed_closureOf_demands conforms wellFormed options listed truthful [seed])

/-- The seed is a member. -/
theorem has_stubbornMembers_seed (options : Options) {seed : Nat}
    (inside : seed < s.transitions.size) :
    ((ofAnalysis (Analysis.ofValid s) options).stubbornMembers enabled oracle seed).has seed
      = true := by
  refine has_closureOf_of_seed (List.mem_singleton_self seed) ?_
  exact lt_of_lt_of_eq inside Analysis.transitionCount_ofValid.symm

/-- **Along every run outside the computed set** its enabled members stay enabled, and firing one
after the run leads where the run leads after firing it; its disabled members stay disabled. -/
theorem stubbornMembers_along_run {a : Analysis} (analysed : Analysis.ofSystem s = .ok a)
    (conforms : sem.Conforms s) (options : Options) (listed : ∀ t, t ∈ enabled ↔ sem.enabled x t)
    (truthful : sem.Truthful x oracle) {seed : Nat} (seedEnabled : seed ∈ enabled)
    {members : Members} (computed : members =
      (ofAnalysis a options).stubbornMembers enabled oracle seed)
    {run : List Nat} {y : State} (runs : sem.Run x run y)
    (outside : ∀ u ∈ run, members.has u = false) :
    members.has seed = true ∧ ∀ t, members.has t = true →
      (sem.enabled x t →
        (∀ before z, before <+: run → sem.Run x before z → sem.enabled z t) ∧
          sem.Run (sem.fire x t) run (sem.fire y t)) ∧
      (¬ sem.enabled x t →
        ∀ before z, before <+: run → sem.Run x before z → ¬ sem.enabled z t) := by
  obtain ⟨_, wellFormed, rfl⟩ := Analysis.ofSystem_eq_ok_iff.mp analysed
  subst computed
  have stubborn := stubborn_stubbornMembers conforms wellFormed options listed truthful seed
  have apart : ∀ {before : List Nat}, before <+: run → ∀ u ∈ before,
      ¬ ((ofAnalysis (Analysis.ofValid s) options).stubbornMembers enabled oracle seed).has u
        = true := fun initial u fired member => by
    rw [outside u (initial.subset fired)] at member
    cases member
  refine ⟨has_stubbornMembers_seed options
    (conforms.enabled_iff.mp ((listed seed).mp seedEnabled)).1, fun t member => ⟨?_, ?_⟩⟩
  · intro isEnabled
    refine ⟨fun before z initial reaches => ?_, ?_⟩
    · exact (stubborn.commutes member isEnabled reaches (apart initial)).1
    · exact (stubborn.commutes member isEnabled runs (apart (List.prefix_refl run))).2
  · intro disabled before z initial reaches
    exact stubborn.stays_disabled member disabled reaches (apart initial)

/-! ### Two flags -/

/-- Two flags that can be raised, the first of which can also be lowered. -/
def twoFlags : TransitionSystem where
  variableCount := 2
  processCount := 2
  transitions := #[⟨"raise first", [0], [], [0], [0]⟩, ⟨"raise second", [1], [], [1], [1]⟩,
    ⟨"lower first", [0], [], [0], [2]⟩]
  guards := #[⟨[0], none⟩, ⟨[1], none⟩, ⟨[0], none⟩]
  exclusiveGuards := []

/-- The guards of the two flags: the first is down, the second is down, the first is up. -/
def twoFlagsHold (x : Bool × Bool) (g : Nat) : Bool :=
  if g = 0 then !x.1 else if g = 1 then !x.2 else x.1

def twoFlagsSemantics : Semantics (Bool × Bool) Bool where
  value x v := if v = 0 then x.1 else x.2
  holds := twoFlagsHold
  enabled x t := t < 3 ∧ twoFlagsHold x t = true
  fire x t := if t = 0 then (true, x.2) else if t = 1 then (x.1, true) else (false, x.2)

theorem twoFlags_hasGuard {t g : Nat} : twoFlags.HasGuard t g ↔ t < 3 ∧ g = t := by
  unfold TransitionSystem.HasGuard
  match t with
  | 0 | 1 | 2 => simp [twoFlags]
  | t + 3 =>
    constructor
    · rintro ⟨transition, found, _⟩
      simp [twoFlags] at found
    · rintro ⟨inside, _⟩
      omega

theorem twoFlags_guardReads {g v : Nat} : twoFlags.GuardReads g v ↔ g < 3 ∧ v = g % 2 := by
  unfold TransitionSystem.GuardReads
  match g with
  | 0 | 1 | 2 => simp [twoFlags]
  | g + 3 =>
    constructor
    · rintro ⟨guard, found, _⟩
      simp [twoFlags] at found
    · rintro ⟨inside, _⟩
      omega

theorem twoFlags_writes {t v : Nat} : twoFlags.Writes t v ↔ t < 3 ∧ v = t % 2 := by
  unfold TransitionSystem.Writes
  match t with
  | 0 | 1 | 2 => simp [twoFlags]
  | t + 3 =>
    constructor
    · rintro ⟨transition, found, _⟩
      simp [twoFlags] at found
    · rintro ⟨inside, _⟩
      omega

theorem twoFlagsSemantics_conforms : twoFlagsSemantics.Conforms twoFlags where
  ext same := Prod.ext (same 0 (by decide)) (same 1 (by decide))
  enabled_iff {x t} := by
    simp only [twoFlags_hasGuard, twoFlagsSemantics]
    constructor
    · rintro ⟨inside, holds⟩
      exact ⟨inside, by rintro g ⟨_, rfl⟩; exact holds⟩
    · rintro ⟨inside, holds⟩
      exact ⟨inside, holds t ⟨inside, rfl⟩⟩
  holds_congr {x y g} known same := by
    have known : g < 3 := known
    have read := same (g % 2) (twoFlags_guardReads.mpr ⟨known, rfl⟩)
    simp only [twoFlagsSemantics, twoFlagsHold] at read ⊢
    match g with
    | 0 | 1 | 2 => simpa using read
  frame {x t v} enabled inside unwritten := by
    have inside : v < 2 := inside
    have other : v ≠ t % 2 := fun same => unwritten (twoFlags_writes.mpr ⟨enabled.1, same⟩)
    simp only [twoFlagsSemantics]
    have := enabled.1
    match t, v with
    | 0, 1 | 1, 0 | 2, 1 => simp
    | 0, 0 | 1, 1 | 2, 0 => simp at other
  fire_congr {x y t v} enabled _ _ writes := by
    obtain ⟨inside, rfl⟩ := twoFlags_writes.mp writes
    simp only [twoFlagsSemantics]
    match t with
    | 0 | 1 | 2 => simp
  exclusive declared := by simp [twoFlags] at declared
  enablers {x t g guard listed} found declared := by
    match g with
    | 0 | 1 | 2 =>
      simp [twoFlags] at found
      simp [← found] at declared
    | g + 3 => simp [twoFlags] at found

/-- With both flags down, raising and lowering the first one are a stubborn set: raising the second
one commutes with the former and does not enable the latter. -/
theorem stubbornMembers_along_run_twoFlags :
    (ofAnalysis (Analysis.ofValid twoFlags) ⟨.stubbornSet, false⟩).stubbornMembers [0, 1]
        (fun g => if g = 2 then some false else none) 0 = #[true, false, true] ∧
      twoFlagsSemantics.Run (true, false) [1] (true, true) ∧
      ¬ twoFlagsSemantics.enabled (false, true) 2 := by
  have computed : (ofAnalysis (Analysis.ofValid twoFlags) ⟨.stubbornSet, false⟩).stubbornMembers
      [0, 1] (fun g => if g = 2 then some false else none) 0 = #[true, false, true] := by
    decide +kernel
  have listed : ∀ t, t ∈ [0, 1] ↔ twoFlagsSemantics.enabled (false, false) t := by
    intro t
    match t with
    | 0 | 1 | 2 => simp [twoFlagsSemantics, twoFlagsHold]
    | t + 3 => exact ⟨by simp, fun enabled => absurd enabled.1 (by omega)⟩
  have truthful : twoFlagsSemantics.Truthful (false, false)
      (fun g => if g = 2 then some false else none) := by
    intro g
    by_cases same : g = 2
    · exact .inr (by simp [same, twoFlagsSemantics, twoFlagsHold])
    · exact .inl (if_neg same)
  have runs : twoFlagsSemantics.Run (false, false) [1] (false, true) :=
    .cons (by simp [twoFlagsSemantics, twoFlagsHold]) (.nil _)
  obtain ⟨_, along⟩ := stubbornMembers_along_run rfl twoFlagsSemantics_conforms
    ⟨.stubbornSet, false⟩ listed truthful (by decide) computed.symm runs (by decide)
  refine ⟨computed, ?_, ?_⟩
  · exact ((along 0 rfl).1 ((listed 0).mp (by decide))).2
  · exact (along 2 rfl).2 (fun enabled => absurd ((listed 2).mpr enabled) (by decide)) [1] _
      (List.prefix_refl _) runs

end Reducer

end StateSpace

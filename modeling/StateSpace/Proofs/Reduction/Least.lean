/-
**The computed stubborn sets are the least ones.**

* `TransitionSystem.Demands` — what a member of a stubborn set asks for, read off the description:
  an enabled member what it interferes with and its enabled rivals, a disabled one without guards
  what it interferes with, and any other one what can make a decisive guard true
  (`TransitionSystem.Decides`). `Reducer.Represents.mem_demands_iff` says that the reducer follows
  these rules.
* `Reducer.Represents.has_stubbornMembers_iff` — so the members are what the seed leads to by these
  rules.
* `Reducer.stubbornMembers_least` — they are the least set that contains the seed and what its
  members ask for, in whatever order the work is done, and they decide what a reduction keeps.
-/

import StateSpace.Proofs.Reduction.Answers
import StateSpace.Proofs.Reduction.Worklist

namespace StateSpace

namespace TransitionSystem

/-- **A guard decides what a disabled transition asks for**: it is the first one known to be false,
or none is and it is not known to hold. -/
def Decides (s : TransitionSystem) (holds : Oracle) (t g : Nat) : Prop :=
  s.HasGuard t g ∧
    (holds g = some false ∧ (∀ h, s.HasGuard t h → h < g → holds h ≠ some false) ∨
      holds g ≠ some true ∧ ∀ h, s.HasGuard t h → holds h ≠ some false)

/-- **What a member of a stubborn set asks for**, where some transitions are enabled. -/
inductive Demands (s : TransitionSystem) (processLocal : Bool) (enabled : List Nat)
    (holds : Oracle) : Nat → Nat → Prop where
  | interferes {t u : Nat} : t ∈ enabled → s.Interferes processLocal t u →
    Demands s processLocal enabled holds t u
  | conflicts {t u : Nat} : t ∈ enabled → u ∈ enabled → s.Conflicts t u →
    Demands s processLocal enabled holds t u
  | unguarded {t u : Nat} : t ∉ enabled → (∀ g, ¬ s.HasGuard t g) →
    s.Interferes processLocal t u → Demands s processLocal enabled holds t u
  | enables {t u g : Nat} : t ∉ enabled → s.Decides holds t g → s.Enables u g →
    Demands s processLocal enabled holds t u

/-- What is asked for is a transition of the system. -/
theorem Demands.lt {s : TransitionSystem} (wellFormed : s.WellFormed) {processLocal : Bool}
    {enabled : List Nat} {holds : Oracle} {t u : Nat}
    (asked : s.Demands processLocal enabled holds t u) : u < s.transitions.size := by
  cases asked with
  | interferes _ neighbour => exact neighbour.lt.2
  | conflicts _ _ conflicts =>
    obtain ⟨_, v, _, writes⟩ := conflicts
    exact writes.lt
  | unguarded _ _ neighbour => exact neighbour.lt.2
  | enables _ _ enables => exact enables.lt wellFormed

end TransitionSystem

/-- The first number of an ascending list of which something holds is the least one. -/
theorem find?_eq_some_iff_of_ascending {numbers : List Nat} (ordered : numbers.Pairwise (· < ·))
    {p : Nat → Bool} {number : Nat} :
    numbers.find? p = some number ↔
      number ∈ numbers ∧ p number = true ∧
        ∀ other ∈ numbers, other < number → p other = false := by
  induction numbers with
  | nil => simp
  | cons first rest ih =>
    obtain ⟨above, later⟩ := List.pairwise_cons.mp ordered
    by_cases here : p first = true
    · rw [List.find?_cons_of_pos here, Option.some.injEq]
      constructor
      · rintro rfl
        refine ⟨List.mem_cons_self, here, fun other member less => ?_⟩
        rcases List.mem_cons.mp member with rfl | member
        · omega
        · have := above other member
          omega
      · rintro ⟨member, _, least⟩
        rcases List.mem_cons.mp member with rfl | member
        · rfl
        · rw [least first List.mem_cons_self (above number member)] at here
          cases here
    · rw [List.find?_cons_of_neg here, ih later]
      rw [Bool.not_eq_true] at here
      constructor
      · rintro ⟨member, found, least⟩
        refine ⟨List.mem_cons_of_mem _ member, found, fun other inside less => ?_⟩
        rcases List.mem_cons.mp inside with rfl | inside
        · exact here
        · exact least other inside less
      · rintro ⟨member, found, least⟩
        rcases List.mem_cons.mp member with rfl | member
        · rw [here] at found
          cases found
        · exact ⟨member, found, fun other inside => least other (List.mem_cons_of_mem _ inside)⟩

namespace Reducer

namespace Represents

variable {s : TransitionSystem} {options : Options} {r : Reducer} {enabled : List Nat}
  {holds : Oracle} {seed t u g : Nat}

/-! ### The rules -/

/-- The decisive guards are those that decide. -/
theorem mem_decisiveGuards_iff (represents : r.Represents s options) :
    g ∈ r.decisiveGuards holds t ↔ s.Decides holds t g := by
  simp only [decisiveGuards]
  cases found : (r.analysis.guardsOf t).find? fun g => holds g == some false with
  | some first =>
    obtain ⟨member, fails, least⟩ :=
      (find?_eq_some_iff_of_ascending (represents.guards_ascend t)).mp found
    rw [represents.mem_guardsOf] at member
    rw [beq_iff_eq] at fails
    have earlier : ∀ h, s.HasGuard t h → h < first → holds h ≠ some false := fun h has less => by
      simpa using least h (represents.mem_guardsOf.mpr has) less
    rw [List.mem_singleton]
    constructor
    · rintro rfl
      exact ⟨member, .inl ⟨fails, earlier⟩⟩
    · rintro ⟨has, ⟨fails', earlier'⟩ | ⟨_, none⟩⟩
      · rcases Nat.lt_trichotomy g first with less | same | more
        · exact absurd fails' (earlier g has less)
        · exact same
        · exact absurd fails (earlier' first member more)
      · exact absurd fails (none first member)
  | none =>
    have unknown : ∀ h, s.HasGuard t h → holds h ≠ some false := fun h has => by
      simpa using List.find?_eq_none.mp found h (represents.mem_guardsOf.mpr has)
    rw [List.mem_filter, represents.mem_guardsOf, bne_iff_ne]
    constructor
    · rintro ⟨has, possible⟩
      exact ⟨has, .inr ⟨possible, unknown⟩⟩
    · rintro ⟨has, ⟨fails, _⟩ | ⟨possible, _⟩⟩
      · exact absurd fails (unknown g has)
      · exact ⟨has, possible⟩

section Enabled

variable (represents : r.Represents s options) (known : ∀ t ∈ enabled, t < s.transitions.size)

include represents known

theorem has_ofList_iff : (Members.ofList r.transitionCount enabled).has t = true ↔ t ∈ enabled := by
  rw [Members.has_ofList, and_iff_left_iff_imp]
  exact represents.inside known t

theorem mem_enabledRivals_iff :
    u ∈ r.enabledRivals (.ofList r.transitionCount enabled) t ↔ u ∈ enabled ∧ s.Conflicts t u := by
  rw [enabledRivals, List.mem_filter, List.mem_range, Bool.and_eq_true, Bool.and_eq_true,
    bne_iff_ne, represents.has_ofList_iff known, represents.get_conflict]
  constructor
  · rintro ⟨_, ⟨_, member⟩, conflicts⟩
    exact ⟨member, conflicts⟩
  · rintro ⟨member, conflicts⟩
    exact ⟨represents.inside known u member, ⟨conflicts.1.symm, member⟩, conflicts⟩

/-- **The reducer asks for what the rules ask for.** -/
theorem mem_demands_iff :
    u ∈ r.demands (.ofList r.transitionCount enabled) holds t ↔
      s.Demands options.processLocal enabled holds t u := by
  -- one case for each branch of `demands`: enabled, disabled without guards, disabled with guards
  unfold demands
  by_cases fires : t ∈ enabled
  · rw [if_pos ((represents.has_ofList_iff known).mpr fires), List.mem_append,
      represents.mem_interference, represents.mem_enabledRivals_iff known]
    constructor
    · rintro (neighbour | ⟨member, conflicts⟩)
      · exact .interferes fires neighbour
      · exact .conflicts fires member conflicts
    · intro asked
      cases asked with
      | interferes _ neighbour => exact .inl neighbour
      | conflicts _ member conflicts => exact .inr ⟨member, conflicts⟩
      | unguarded disabled => exact absurd fires disabled
      | enables disabled => exact absurd fires disabled
  · rw [if_neg fun isEnabled => fires ((represents.has_ofList_iff known).mp isEnabled)]
    by_cases free : ∀ g, ¬ s.HasGuard t g
    · have empty : (r.analysis.guardsOf t).isEmpty = true := by
        rw [List.isEmpty_iff, List.eq_nil_iff_forall_not_mem]
        exact fun g member => free g (represents.mem_guardsOf.mp member)
      rw [empty, if_pos rfl, represents.mem_interference]
      constructor
      · exact .unguarded fires free
      · intro asked
        cases asked with
        | interferes member => exact absurd member fires
        | conflicts member => exact absurd member fires
        | unguarded _ _ neighbour => exact neighbour
        | enables _ decides => exact absurd decides.1 (free _)
    · obtain ⟨first, has⟩ := not_forall_not.mp free
      have guarded : (r.analysis.guardsOf t).isEmpty = false :=
        List.isEmpty_eq_false_iff_exists_mem.mpr ⟨first, represents.mem_guardsOf.mpr has⟩
      rw [guarded, if_neg Bool.false_ne_true, List.mem_flatMap]
      simp only [represents.mem_decisiveGuards_iff, represents.mem_enablersOf]
      constructor
      · rintro ⟨g, decides, enables⟩
        exact .enables fires decides enables
      · intro asked
        cases asked with
        | interferes member => exact absurd member fires
        | conflicts member => exact absurd member fires
        | unguarded _ none => exact absurd has (none first)
        | enables _ decides enables => exact ⟨_, decides, enables⟩

/-- **The members are what the seed leads to by the rules.** -/
theorem has_stubbornMembers_iff (fires : seed ∈ enabled) :
    (r.stubbornMembers enabled holds seed).has t = true ↔
      Relation.ReflTransGen (s.Demands options.processLocal enabled holds) seed t := by
  have rules : (fun t u => u ∈ r.demands (.ofList r.transitionCount enabled) holds t ∧
      u < r.transitionCount) = s.Demands options.processLocal enabled holds := by
    funext t u
    rw [eq_iff_iff, represents.mem_demands_iff known, and_iff_left_iff_imp,
      represents.transitionCount_eq]
    exact fun asked => asked.lt represents.wellFormed
  rw [stubbornMembers, has_closureOf_iff, Demanded, rules]
  constructor
  · rintro ⟨first, single, _, leads⟩
    rwa [List.mem_singleton.mp single] at leads
  · intro leads
    exact ⟨seed, List.mem_singleton_self seed, represents.inside known seed fires, leads⟩

end Enabled

end Represents

/-- **The computed stubborn set is the least one.** Take a reducer for a system, a list of enabled
transitions and one of them as a seed, and anything known of the guards. The members are the least
set of transitions that contains the seed and, with a transition, all that it asks for; they are
what the seed leads to; and what is asked for is told by the rules. In whatever order the worklist
is gone through, the work ends with these members, after as many rounds as there are members. With
the least enabled transition as the seed, they are what a reduction keeps. -/
theorem stubbornMembers_least {s : TransitionSystem} {options : Options} {r : Reducer}
    (made : ofSystem s options = .ok r) {enabled : List Nat}
    (known : ∀ t ∈ enabled, t < s.transitions.size) (holds : Oracle) {seed : Nat}
    (fires : seed ∈ enabled) {demands : Nat → List Nat}
    (rule : demands = r.demands (.ofList r.transitionCount enabled) holds) {members : Members}
    (computed : members = r.stubbornMembers enabled holds seed) :
    IsLeast {ts : Set Nat | seed ∈ ts ∧ ∀ t ∈ ts, ∀ u ∈ demands t, u ∈ ts}
      {t | members.has t = true} ∧
    (∀ t, members.has t = true ↔ Relation.ReflTransGen (fun t u => u ∈ demands t) seed t) ∧
    (∀ t u, u ∈ demands t ↔ s.Demands options.processLocal enabled holds t u) ∧
    (∀ rounds state,
      Worklist.Rounds demands rounds (.ofList r.transitionCount [seed], [seed]) state →
        state = (members, []) ∧ rounds = members.count true ∨
          rounds < members.count true ∧ ∃ next, Worklist.Round demands state next) ∧
    (options.method = .stubbornSet → (∀ t ∈ enabled, seed ≤ t) →
      r.Keeps enabled holds fun t => members.has t = true) := by
  have represents := represents_of_ofSystem made
  have asks : ∀ t u, u ∈ demands t ↔ s.Demands options.processLocal enabled holds t u := by
    intro t u
    rw [rule, represents.mem_demands_iff known]
  have inside := represents.inside known seed fires
  have least : IsLeast {ts : Set Nat | (∀ t ∈ [seed], t ∈ ts) ∧ ∀ t ∈ ts, ∀ u ∈ demands t, u ∈ ts}
      {t | members.has t = true} := by
    rw [computed, stubbornMembers, ← rule]
    refine isLeast_closureOf (fun t single => ?_) fun t u asked => ?_
    · rwa [List.mem_singleton.mp single]
    · rw [represents.transitionCount_eq]
      exact ((asks t u).mp asked).lt represents.wellFormed
  simp only [List.forall_mem_singleton] at least
  refine ⟨least, fun t => ?_, asks, fun rounds state run => ?_, fun method lowest => ?_⟩
  · have rules : (fun t u => u ∈ demands t) = s.Demands options.processLocal enabled holds := by
      funext t u
      exact propext (asks t u)
    rw [computed, rules]
    exact represents.has_stubbornMembers_iff known fires
  · rw [← seeded_singleton inside] at run
    rw [computed, stubbornMembers, ← rule]
    exact run.cases
  · have keeps := represents.keeps_members holds known
    rwa [Reducer.members, represents.options_eq, method, seedOf_eq fires lowest,
      ← computed] at keeps

/-! ### Two flags -/

theorem twoFlags_reads {t v : Nat} : twoFlags.Reads t v ↔ t < 3 ∧ v = t % 2 := by
  have own : ¬ ∃ transition, twoFlags.transitions[t]? = some transition ∧ v ∈ transition.reads := by
    rintro ⟨transition, found, member⟩
    match t with
    | 0 | 1 | 2 => simp [twoFlags] at found; simp [← found] at member
    | t + 3 => simp [twoFlags] at found
  simp only [TransitionSystem.Reads, own, false_or, twoFlags_hasGuard, twoFlags_guardReads]
  constructor
  · rintro ⟨g, ⟨inside, rfl⟩, _, same⟩
    exact ⟨inside, same⟩
  · rintro ⟨inside, same⟩
    exact ⟨t, ⟨inside, rfl⟩, inside, same⟩

/-- Transitions of the same flag interfere. -/
theorem twoFlags_interferes {t u : Nat} :
    twoFlags.Interferes false t u ↔ t ≠ u ∧ t < 3 ∧ u < 3 ∧ t % 2 = u % 2 := by
  have coenabled : ¬ twoFlags.NeverCoenabled t u := by
    rintro ⟨_, g, h, _, _, excludes⟩
    simp [TransitionSystem.Excludes, twoFlags] at excludes
  simp only [TransitionSystem.Interferes, TransitionSystem.Dependent, twoFlags_writes,
    twoFlags_reads, coenabled]
  constructor
  · rintro ⟨different, _, ⟨v, both | both | both⟩ | ⟨asked, _⟩⟩
    · exact ⟨different, both.1.1, both.2.1, both.1.2.symm.trans both.2.2⟩
    · exact ⟨different, both.1.1, both.2.1, both.1.2.symm.trans both.2.2⟩
    · exact ⟨different, both.2.1, both.1.1, both.2.2.symm.trans both.1.2⟩
    · cases asked
  · rintro ⟨different, inside, inside', same⟩
    exact ⟨different, not_false, .inl ⟨t % 2, .inl ⟨⟨inside, rfl⟩, inside', same⟩⟩⟩

/-- A guard is made true by transitions of its flag. -/
theorem twoFlags_of_enables {t g : Nat} (enables : twoFlags.Enables t g) :
    t < 3 ∧ t % 2 = g % 2 := by
  obtain ⟨guard, found, able⟩ := enables
  have undeclared : guard.enablers = none := by
    match g with
    | 0 | 1 | 2 => simp [twoFlags] at found; simp [← found]
    | g + 3 => simp [twoFlags] at found
  rw [undeclared] at able
  obtain ⟨v, reads, writes⟩ := able
  obtain ⟨_, read⟩ := twoFlags_guardReads.mp ⟨guard, found, reads⟩
  obtain ⟨inside, written⟩ := twoFlags_writes.mp writes
  exact ⟨inside, written.symm.trans read⟩

/-- Whatever is known of the guards, a transition asks for transitions of its flag. -/
theorem twoFlags_of_demands {enabled : List Nat} {holds : Oracle} {t u : Nat}
    (asked : twoFlags.Demands false enabled holds t u) : u < 3 ∧ u % 2 = t % 2 := by
  cases asked with
  | interferes _ neighbour | unguarded _ _ neighbour =>
    obtain ⟨_, _, below, same⟩ := twoFlags_interferes.mp neighbour
    exact ⟨below, same.symm⟩
  | conflicts _ _ conflicts =>
    obtain ⟨_, v, writes, writes'⟩ := conflicts
    obtain ⟨_, rfl⟩ := twoFlags_writes.mp writes
    obtain ⟨below, same⟩ := twoFlags_writes.mp writes'
    exact ⟨below, same.symm⟩
  | enables _ decides enables =>
    obtain ⟨_, rfl⟩ := twoFlags_hasGuard.mp decides.1
    exact twoFlags_of_enables enables

/-- So the transitions of a flag lead to one another only. -/
theorem twoFlags_of_leads {enabled : List Nat} {holds : Oracle} {seed t : Nat}
    (leads : Relation.ReflTransGen (twoFlags.Demands false enabled holds) seed t) :
    t % 2 = seed % 2 := by
  induction leads with
  | refl => rfl
  | tail _ asked ih => exact (twoFlags_of_demands asked).2.trans ih

/-- With both flags down and the guard of lowering the first one known to be false, raising the
first flag asks for lowering it, and that for raising it. So a reduction drops raising the second
one. -/
theorem stubbornMembers_least_twoFlags :
    ∃ r, ofSystem twoFlags ⟨.stubbornSet, false⟩ = .ok r ∧
      {t | (r.stubbornMembers [1, 0] (fun g => if g = 2 then some false else none) 0).has t = true}
        = {0, 2} ∧
      ∃ later, r.reduce [1, 0] (fun g => if g = 2 then some false else none)
        = .ok ([false, true], later) := by
  have made : ofSystem twoFlags ⟨.stubbornSet, false⟩
      = .ok (ofAnalysis (Analysis.ofValid twoFlags) ⟨.stubbornSet, false⟩) := rfl
  have known : ∀ t ∈ [1, 0], t < twoFlags.transitions.size := by decide
  have fires : 0 ∈ [1, 0] := by decide
  obtain ⟨⟨_, least⟩, leads, asks, _, reduces⟩ := stubbornMembers_least made known
    (fun g => if g = 2 then some false else none) fires rfl rfl
  have members : {t |
      ((ofAnalysis (Analysis.ofValid twoFlags) ⟨.stubbornSet, false⟩).stubbornMembers [1, 0]
        (fun g => if g = 2 then some false else none) 0).has t = true} = {0, 2} := by
    refine Set.Subset.antisymm (least ⟨.inl rfl, fun t inside u asked => ?_⟩) ?_
    · have even : t % 2 = 0 := by rcases inside with rfl | rfl <;> rfl
      obtain ⟨below, same⟩ := twoFlags_of_demands ((asks t u).mp asked)
      show u = 0 ∨ u = 2
      omega
    · rintro t (rfl | rfl)
      · exact (leads 0).mpr .refl
      · exact (leads 2).mpr (.single ((asks 0 2).mpr (.interferes (by decide)
          (twoFlags_interferes.mpr (by decide)))))
  have told : ∀ t ∈ [1, 0], (((ofAnalysis (Analysis.ofValid twoFlags)
      ⟨.stubbornSet, false⟩).stubbornMembers [1, 0] (fun g => if g = 2 then some false else none)
        0).has t = true ↔ (t != 1) = true) := by
    intro t member
    refine (Set.ext_iff.mp members t).trans ?_
    rcases List.mem_cons.mp member with rfl | member
    · simp
    · rw [List.mem_singleton.mp member]
      simp
  obtain ⟨later, reduced⟩ :=
    (reduces rfl (by decide)).exists_reduce told (Stats.room_initial (by decide))
  exact ⟨_, made, members, _, reduced⟩

end Reducer

end StateSpace

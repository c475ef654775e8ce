/-
**The description of a program.**

* `Command.Fits` — a command names processes, locations, variables and values of its program;
  `Program.violations_eq_nil_iff` says that these are the commands nothing is wrong with.
* `Program.getElem?_conditions_location`, `Program.getElem?_conditions_shared` — the numbers of the
  guards lead back to what they test.
* `Condition.Contrary` — two tests of one byte for different values. The guards declared exclusive
  are such (`Program.contrary_of_mem_exclusiveGuards`).
* `Program.system_wellFormed` — the description of a program in order passes the load-time check.
-/

import StateSpace.Program.Model
import StateSpace.Proofs.Analysis.Relations

namespace StateSpace

/-- **A command that names only what its program has.** -/
structure Command.Fits (p : Program) (command : Command) : Prop where
  process : command.process < p.processCount
  source : command.source < p.locationCount
  target : command.target < p.locationCount
  bindings : ∀ binding ∈ command.bindings,
    binding.index < p.variableCount ∧ binding.value < p.domain

namespace Program

theorem commandViolations_eq_nil_iff (p : Program) (number : Nat) (command : Command) :
    p.commandViolations number command = [] ↔ command.Fits p := by
  have bindings : command.bindings.all p.admits = true ↔ ∀ binding ∈ command.bindings,
      binding.index < p.variableCount ∧ binding.value < p.domain := by
    rw [List.all_eq_true]
    simp only [admits, Bool.and_eq_true, decide_eq_true_eq]
  unfold commandViolations
  rw [List.append_eq_nil_iff, List.append_eq_nil_iff]
  constructor
  · rintro ⟨⟨process, location⟩, admitted⟩
    refine ⟨?_, ?_, ?_, bindings.mp ?_⟩
    · exact Nat.lt_of_not_le fun beyond => by simp [beyond] at process
    · exact UInt8.not_le.mp fun beyond => by simp [beyond] at location
    · exact UInt8.not_le.mp fun beyond => by simp [beyond] at location
    · refine Classical.byContradiction fun other => ?_
      rw [if_neg other] at admitted
      cases admitted
  · intro fits
    have location : ¬ (p.locationCount ≤ command.source ∨ p.locationCount ≤ command.target) := by
      rintro (beyond | beyond)
      · exact UInt8.not_le.mpr fits.source beyond
      · exact UInt8.not_le.mpr fits.target beyond
    rw [if_neg (Nat.not_le.mpr fits.process), if_neg location, if_pos (bindings.mpr fits.bindings)]
    exact ⟨⟨rfl, rfl⟩, rfl⟩

/-- **Nothing is wrong with exactly the commands that fit.** -/
theorem violations_eq_nil_iff {p : Program} :
    p.violations = [] ↔ ∀ (number : Nat) (command : Command),
      p.commands[number]? = some command → command.Fits p :=
  TransitionSystem.numbered_eq_nil_iff p.commandViolations_eq_nil_iff

/-! ### Guards -/

theorem mem_sharedGuards {p : Program} {binding : Binding} :
    binding ∈ p.sharedGuards ↔
      ∃ (t : Nat) (command : Command), p.commands[t]? = some command ∧
        command.guard = some binding := by
  rw [sharedGuards, List.mem_eraseDups, List.mem_filterMap]
  constructor
  · rintro ⟨command, member, guarded⟩
    obtain ⟨t, found⟩ := List.mem_iff_getElem?.mp member
    exact ⟨t, command, by rw [← Array.getElem?_toList]; exact found, guarded⟩
  · rintro ⟨t, command, found, guarded⟩
    rw [← Array.getElem?_toList] at found
    exact ⟨command, List.mem_of_getElem? found, guarded⟩

theorem length_locationConditions (p : Program) :
    p.locationConditions.length = p.locationGuardCount := by
  rw [locationConditions, List.length_map, List.length_range]

/-- The first guards test for the locations, process by process. -/
theorem getElem?_conditions_of_lt {p : Program} {guard : Nat}
    (inside : guard < p.locationGuardCount) :
    p.conditions[guard]? = some (.location (guard / p.locationCount.toNat)
      (UInt8.ofNat (guard % p.locationCount.toNat))) := by
  rw [conditions, List.getElem?_append_left (by rwa [length_locationConditions]),
    locationConditions, List.getElem?_map, List.getElem?_range inside]
  rfl

/-- The others test for the guards of the commands. -/
theorem getElem?_conditions_add (p : Program) (number : Nat) :
    p.conditions[p.locationGuardCount + number]? = (p.sharedGuards[number]?).map .shared := by
  rw [conditions, List.getElem?_append_right (by rw [length_locationConditions]; omega),
    length_locationConditions, Nat.add_sub_cancel_left, List.getElem?_map]

theorem locationGuard_lt {p : Program} {process : Nat} {location : UInt8}
    (inside : process < p.processCount) (below : location < p.locationCount) :
    p.locationGuard process location < p.locationGuardCount := by
  have small : location.toNat < p.locationCount.toNat := below
  have rows := Nat.mul_le_mul_right p.locationCount.toNat (Nat.succ_le_of_lt inside)
  rw [Nat.succ_mul] at rows
  unfold locationGuard locationGuardCount
  omega

/-- **The guard of a location tests for it.** -/
theorem getElem?_conditions_location {p : Program} {process : Nat} {location : UInt8}
    (inside : process < p.processCount) (below : location < p.locationCount) :
    p.conditions[p.locationGuard process location]? = some (.location process location) := by
  have small : location.toNat < p.locationCount.toNat := below
  have positive : 0 < p.locationCount.toNat := Nat.lt_of_le_of_lt (Nat.zero_le _) small
  have row : p.locationGuard process location / p.locationCount.toNat = process := by
    rw [locationGuard, Nat.mul_comm, Nat.mul_add_div positive, Nat.div_eq_of_lt small,
      Nat.add_zero]
  have column : p.locationGuard process location % p.locationCount.toNat = location.toNat := by
    rw [locationGuard, Nat.mul_comm, Nat.mul_add_mod, Nat.mod_eq_of_lt small]
  rw [getElem?_conditions_of_lt (locationGuard_lt inside below), row, column, UInt8.ofNat_toNat]

/-- **The guard of a binding tests for it.** -/
theorem getElem?_conditions_shared {p : Program} {binding : Binding}
    (used : binding ∈ p.sharedGuards) :
    p.conditions[p.sharedGuard p.sharedGuards binding]? = some (.shared binding) := by
  rw [sharedGuard, getElem?_conditions_add, List.getElem?_eq_getElem (List.idxOf_lt_length_iff.mpr
    used), List.getElem_idxOf, Option.map_some]

end Program

/-! ### Exclusive guards -/

/-- **Two tests of one byte for different values.** -/
inductive Condition.Contrary : Condition → Condition → Prop where
  | location {process : Nat} {first second : UInt8} : first ≠ second →
    Contrary (.location process first) (.location process second)
  | shared {first second : Binding} : first.index = second.index → first.value ≠ second.value →
    Contrary (.shared first) (.shared second)

theorem Condition.Contrary.ne {first second : Condition} (contrary : first.Contrary second) :
    first ≠ second := by
  rintro rfl
  cases contrary with
  | location differ => exact differ rfl
  | shared _ differ => exact differ rfl

namespace Program

/-- Going on inside a row leaves the row as it is. -/
theorem add_div_mod_of_lt {guard step width : Nat} (fits : guard % width + step < width) :
    (guard + step) / width = guard / width ∧ (guard + step) % width = guard % width + step := by
  have positive : 0 < width := Nat.lt_of_le_of_lt (Nat.zero_le _) fits
  have split : guard + step = width * (guard / width) + (guard % width + step) := by
    rw [← Nat.add_assoc, Nat.div_add_mod]
  rw [split, Nat.mul_add_div positive, Nat.mul_add_mod, Nat.div_eq_of_lt fits,
    Nat.mod_eq_of_lt fits, Nat.add_zero]
  exact ⟨rfl, rfl⟩

/-- The guards of one process that are paired test for different locations. -/
theorem contrary_of_mem_locationPairs {p : Program} {g h : Nat}
    (member : (g, h) ∈ p.locationPairs) :
    ∃ first second, p.conditions[g]? = some first ∧ p.conditions[h]? = some second ∧
      first.Contrary second := by
  rw [locationPairs, List.mem_flatMap] at member
  obtain ⟨guard, inside, pair⟩ := member
  obtain ⟨other, later, same⟩ := List.mem_map.mp pair
  rw [Prod.mk.injEq] at same
  obtain ⟨rfl, rfl⟩ := same
  rw [List.mem_range, locationGuardCount] at inside
  obtain ⟨above, below⟩ := List.mem_range'_1.mp later
  obtain ⟨step, rfl⟩ := Nat.exists_eq_add_of_le (Nat.le_of_succ_le above)
  have fits : guard % p.locationCount.toNat + step < p.locationCount.toNat := by omega
  have positive : 0 < p.locationCount.toNat := Nat.lt_of_le_of_lt (Nat.zero_le _) fits
  obtain ⟨row, column⟩ := add_div_mod_of_lt fits
  have inside' : guard + step < p.processCount * p.locationCount.toNat := by
    rw [← Nat.div_lt_iff_lt_mul positive, row, Nat.div_lt_iff_lt_mul positive]
    exact inside
  refine ⟨_, _, getElem?_conditions_of_lt inside, getElem?_conditions_of_lt inside', ?_⟩
  rw [row, column]
  refine .location fun same => ?_
  have byte : p.locationCount.toNat < 256 := p.locationCount.toNat_lt
  have values := congrArg UInt8.toNat same
  rw [UInt8.toNat_ofNat', UInt8.toNat_ofNat', Nat.mod_eq_of_lt (by omega),
    Nat.mod_eq_of_lt (by omega)] at values
  omega

theorem mem_sharedPairs {numbered : List (Binding × Nat)} {g h : Nat}
    (member : (g, h) ∈ sharedPairs numbered) :
    ∃ first second, (first, g) ∈ numbered ∧ (second, h) ∈ numbered ∧
      first.excludes second = true := by
  fun_induction sharedPairs numbered with
  | case1 => cases member
  | case2 binding number rest ih =>
    rcases List.mem_append.mp member with here | later
    · obtain ⟨⟨other, number'⟩, rival, same⟩ := List.mem_map.mp here
      rw [Prod.mk.injEq] at same
      obtain ⟨rfl, rfl⟩ := same
      obtain ⟨inside, excludes⟩ := List.mem_filter.mp rival
      exact ⟨binding, other, List.mem_cons_self, List.mem_cons_of_mem _ inside, excludes⟩
    · obtain ⟨first, second, inside, inside', excludes⟩ := ih later
      exact ⟨first, second, List.mem_cons_of_mem _ inside, List.mem_cons_of_mem _ inside', excludes⟩

/-- A numbered guard of a command is the condition of that number. -/
theorem getElem?_conditions_of_mem_zipIdx {p : Program} {binding : Binding} {g : Nat}
    (member : (binding, g) ∈ p.sharedGuards.zipIdx p.locationGuardCount) :
    p.conditions[g]? = some (.shared binding) := by
  obtain ⟨above, found⟩ := List.mem_zipIdx_iff_le_and_getElem?_sub.mp member
  obtain ⟨number, rfl⟩ := Nat.exists_eq_add_of_le above
  rw [Nat.add_sub_cancel_left] at found
  rw [getElem?_conditions_add, found]
  rfl

/-- **Guards declared exclusive test one byte for different values.** -/
theorem contrary_of_mem_exclusiveGuards {p : Program} {g h : Nat}
    (member : (g, h) ∈ p.system.exclusiveGuards) :
    ∃ first second, p.conditions[g]? = some first ∧ p.conditions[h]? = some second ∧
      first.Contrary second := by
  rcases List.mem_append.mp member with location | shared
  · exact contrary_of_mem_locationPairs location
  · obtain ⟨first, second, inside, inside', excludes⟩ := mem_sharedPairs shared
    rw [Binding.excludes, Bool.and_eq_true, beq_iff_eq, bne_iff_ne] at excludes
    exact ⟨_, _, getElem?_conditions_of_mem_zipIdx inside,
      getElem?_conditions_of_mem_zipIdx inside', .shared excludes.1 excludes.2⟩

/-! ### The description -/

theorem getElem?_transitions (p : Program) (t : Nat) :
    p.system.transitions[t]? = (p.commands[t]?).map (p.transition p.sharedGuards) := by
  rw [system, Array.getElem?_map]

theorem getElem?_guards (p : Program) (g : Nat) :
    p.system.guards[g]? = (p.conditions[g]?).map fun condition =>
      ⟨[p.conditionRead condition], none⟩ := by
  rw [system, List.getElem?_toArray, List.getElem?_map]

theorem size_guards (p : Program) : p.system.guards.size = p.conditions.length := by
  rw [system, List.size_toArray, List.length_map]

/-- A condition tests a byte of the states. -/
theorem conditionRead_lt {p : Program} (inOrder : p.violations = []) {g : Nat}
    {condition : Condition} (found : p.conditions[g]? = some condition) :
    p.conditionRead condition < p.imageSize := by
  rcases Nat.lt_or_ge g p.locationGuardCount with inside | beyond
  · rw [getElem?_conditions_of_lt inside, Option.some.injEq] at found
    subst found
    have row : g / p.locationCount.toNat < p.processCount := by
      refine Nat.div_lt_of_lt_mul ?_
      rwa [Nat.mul_comm]
    exact Nat.lt_add_right _ row
  · obtain ⟨number, rfl⟩ := Nat.exists_eq_add_of_le beyond
    rw [getElem?_conditions_add, Option.map_eq_some_iff] at found
    obtain ⟨binding, listed, rfl⟩ := found
    obtain ⟨t, command, used, guarded⟩ := mem_sharedGuards.mp (List.mem_of_getElem? listed)
    have fits := (violations_eq_nil_iff.mp inOrder t command used).bindings binding
      (by simp [Command.bindings, guarded])
    exact Nat.add_lt_add_left fits.1 _

/-- The byte of a binding of a command. -/
theorem slot_lt {p : Program} {command : Command} (fits : command.Fits p) {binding : Binding}
    (member : binding ∈ command.bindings) : p.slot binding < p.imageSize :=
  Nat.add_lt_add_left (fits.bindings binding member).1 _

/-- The guards of a command are guards of the description. -/
theorem guard_lt {p : Program} {t : Nat} {command : Command} (fits : command.Fits p)
    (used : p.commands[t]? = some command) {g : Nat}
    (member : g ∈ (p.transition p.sharedGuards command).guards) : g < p.system.guards.size := by
  have inside : ∃ condition, p.conditions[g]? = some condition := by
    rcases List.mem_cons.mp member with rfl | shared
    · exact ⟨_, getElem?_conditions_location fits.process fits.source⟩
    · obtain ⟨binding, guarded, rfl⟩ := List.mem_map.mp shared
      rw [Option.mem_toList] at guarded
      exact ⟨_, getElem?_conditions_shared (mem_sharedGuards.mpr ⟨t, command, used, guarded⟩)⟩
  obtain ⟨condition, found⟩ := inside
  rw [size_guards]
  exact (List.getElem?_eq_some_iff.mp found).1

/-- **The description of a program in order is well formed.** -/
theorem system_wellFormed {p : Program} (inOrder : p.violations = []) : p.system.WellFormed where
  inhabited := by
    intro nonempty
    have first : 0 < p.commands.size := by simpa [system] using nonempty
    have fits := violations_eq_nil_iff.mp inOrder 0 _ (Array.getElem?_eq_getElem first)
    exact Nat.lt_of_le_of_lt (Nat.zero_le _) fits.process
  guards := by
    intro g guard found
    rw [getElem?_guards, Option.map_eq_some_iff] at found
    obtain ⟨condition, tested, rfl⟩ := found
    refine ⟨fun v member => ?_, fun t member => ?_⟩
    · rw [List.mem_singleton.mp member]
      exact conditionRead_lt inOrder tested
    · cases member
  transitions := by
    intro t transition found
    rw [getElem?_transitions, Option.map_eq_some_iff] at found
    obtain ⟨command, used, rfl⟩ := found
    have fits := violations_eq_nil_iff.mp inOrder t command used
    refine ⟨List.cons_ne_nil _ _, fun process member => ?_, fun v member => ?_, fun v member => ?_,
      fun g member => guard_lt fits used member⟩
    · rw [List.mem_singleton.mp member]
      exact fits.process
    · obtain ⟨binding, forbidden, rfl⟩ := List.mem_map.mp member
      exact slot_lt fits (List.mem_append_right _ forbidden)
    · rcases List.mem_cons.mp member with rfl | updated
      · exact Nat.lt_add_right _ fits.process
      · obtain ⟨binding, update, rfl⟩ := List.mem_map.mp updated
        exact slot_lt fits (List.mem_append_left _ (List.mem_append_right _ update))
  exclusive := by
    rintro ⟨g, h⟩ member
    obtain ⟨first, second, found, found', contrary⟩ := contrary_of_mem_exclusiveGuards member
    rw [size_guards]
    refine ⟨(List.getElem?_eq_some_iff.mp found).1, (List.getElem?_eq_some_iff.mp found').1, ?_⟩
    intro same
    have same : g = h := same
    rw [same, found', Option.some.injEq] at found
    exact contrary.ne found.symm

end Program

end StateSpace

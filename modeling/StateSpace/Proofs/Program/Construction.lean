/-
**The description of a program, built in one pass.**

* `Program.Draft` — what is known after some commands: the guards found so far, the numbers that
  bindings were given where they were first used, and the footprints. `Program.Draft.add` takes one
  more command.
* `Program.exclusivePairs` — a pass over all pairs of guards.
* `Program.build` — the whole description. `Program.build_eq` says that it is `Program.system`: all
  through the pass the draft is the description of the commands so far (`Program.Draft.Holds`).
-/

import Mathlib.Data.List.Basic
import StateSpace.Proofs.Lists
import StateSpace.Proofs.Program.Description

namespace StateSpace

/-- Whether two conditions can never hold together. -/
def Condition.excludes : Condition → Condition → Bool
  | .location process place, .location other elsewhere => process == other && place != elsewhere
  | .shared first, .shared second => first.excludes second
  | _, _ => false

namespace Program

/-! ### The pass over the commands -/

/-- **What is known after some commands.** -/
structure Draft where
  conditions : List Condition
  /-- The guards that bindings were given. -/
  numbers : List (Binding × Nat)
  transitions : List Transition

namespace Draft

/-- Before the first command there are only the guards for the locations. -/
def start (p : Program) : Draft where
  conditions := (List.range p.processCount).flatMap fun process =>
    (List.range p.locationCount.toNat).map fun location => .location process (.ofNat location)
  numbers := []
  transitions := []

/-- The footprint of a command whose guards are known. -/
def footprint (p : Program) (command : Command) (guards : List Nat) : Transition where
  label := commandLabel command
  processes := [command.process]
  reads := command.forbidden.toList.map p.slot
  writes := command.process :: command.update.toList.map p.slot
  guards := guards

/-- **Takes one more command.** A binding that is not yet a guard becomes the next one. -/
def add (p : Program) (draft : Draft) (command : Command) : Draft :=
  let own := p.locationGuard command.process command.source
  match command.guard with
  | none => { draft with transitions := draft.transitions ++ [footprint p command [own]] }
  | some binding =>
    match draft.numbers.lookup binding with
    | some number =>
      { draft with transitions := draft.transitions ++ [footprint p command [own, number]] }
    | none =>
      let number := draft.conditions.length
      { conditions := draft.conditions ++ [.shared binding]
        numbers := (binding, number) :: draft.numbers
        transitions := draft.transitions ++ [footprint p command [own, number]] }

end Draft

/-- **The pairs of numbered conditions that exclude one another**, the earlier one first. -/
def exclusivePairs : List (Condition × Nat) → List (Nat × Nat)
  | [] => []
  | (condition, number) :: rest =>
    (rest.filter fun other => condition.excludes other.1).map (fun other => (number, other.2))
      ++ exclusivePairs rest

/-- **The description of a program, built in one pass.** -/
def build (p : Program) : TransitionSystem :=
  let draft := p.commands.toList.foldl (Draft.add p) (Draft.start p)
  { variableCount := p.imageSize
    processCount := p.processCount
    transitions := draft.transitions.toArray
    guards := (draft.conditions.map fun condition => ⟨[p.conditionRead condition], none⟩).toArray
    exclusiveGuards := exclusivePairs draft.conditions.zipIdx }

/-! ### The guards in their order -/

/-- Rows of equal width, one after the other. -/
theorem map_range_mul {α : Type} (cell : Nat → Nat → α) (rows width : Nat) :
    (List.range (rows * width)).map (fun number => cell (number / width) (number % width))
      = (List.range rows).flatMap fun row => (List.range width).map (cell row) := by
  induction rows with
  | zero => rw [Nat.zero_mul, List.range_zero, List.map_nil, List.flatMap_nil]
  | succ rows ih =>
    have last : (List.range width).map (fun number =>
        cell ((rows * width + number) / width) ((rows * width + number) % width))
          = (List.range width).map (cell rows) := by
      refine List.map_congr_left fun number member => ?_
      have inside := List.mem_range.mp member
      rw [Nat.mul_comm, Nat.mul_add_div (by omega), Nat.mul_add_mod, Nat.div_eq_of_lt inside,
        Nat.mod_eq_of_lt inside, Nat.add_zero]
    rw [Nat.succ_mul, List.range_add, List.map_append, ih, List.map_map, List.range_succ,
      List.flatMap_append, List.flatMap_singleton, ← last]
    rfl

theorem Draft.conditions_start (p : Program) : (start p).conditions = p.locationConditions :=
  (map_range_mul (fun process location => Condition.location process (.ofNat location))
    p.processCount p.locationCount.toNat).symm

/-- The guards of some commands, in the order of their first use. -/
def guardsUsed (commands : List Command) : List Binding :=
  (commands.filterMap Command.guard).eraseDups

/-- **A draft holds some commands**: it is what the description says of them. -/
structure Draft.Holds (p : Program) (commands : List Command) (draft : Draft) : Prop where
  conditions_eq : draft.conditions
    = p.locationConditions ++ (guardsUsed commands).map .shared
  lookup_eq : ∀ binding, draft.numbers.lookup binding
    = if binding ∈ guardsUsed commands then some (p.sharedGuard (guardsUsed commands) binding)
      else none
  transitions_eq : draft.transitions = commands.map (p.transition (guardsUsed commands))

namespace Draft.Holds

variable {p : Program} {commands : List Command} {draft : Draft} {command : Command}

theorem start (p : Program) : (Draft.start p).Holds p [] where
  conditions_eq := by
    rw [conditions_start]
    exact (List.append_nil _).symm
  lookup_eq _ := rfl
  transitions_eq := rfl

/-- A footprint does not change when more guards are found. -/
theorem transition_append {used more : List Binding}
    (known : ∀ binding ∈ command.guard, binding ∈ used) :
    p.transition (used ++ more) command = p.transition used command := by
  have same : command.guard.toList.map (p.sharedGuard (used ++ more))
      = command.guard.toList.map (p.sharedGuard used) := by
    refine List.map_congr_left fun binding member => ?_
    rw [sharedGuard, sharedGuard, List.idxOf_append_of_mem (known binding (by simpa using member))]
  unfold transition
  rw [same]

/-- A footprint whose guards are those of the command. -/
theorem footprint_eq {used : List Binding} {guards : List Nat}
    (own : guards = p.locationGuard command.process command.source
      :: command.guard.toList.map (p.sharedGuard used)) :
    footprint p command guards = p.transition used command := by
  rw [own]
  rfl

/-- The footprints stay right when more guards are found. -/
theorem transitions_concat (holds : draft.Holds p commands) (more : List Binding)
    (command : Command) :
    draft.transitions ++ [p.transition (guardsUsed commands ++ more) command]
      = (commands ++ [command]).map (p.transition (guardsUsed commands ++ more)) := by
  rw [List.map_append, holds.transitions_eq, List.map_singleton]
  refine congrArg (· ++ _) (List.map_congr_left fun earlier member => ?_)
  refine (transition_append fun binding guarded => ?_).symm
  rw [guardsUsed, List.mem_eraseDups, List.mem_filterMap]
  exact ⟨earlier, member, guarded⟩

/-- **A command that brings no new guard.** -/
theorem keep (holds : draft.Holds p commands)
    (same : guardsUsed (commands ++ [command]) = guardsUsed commands) :
    Holds p (commands ++ [command])
      { draft with
        transitions := draft.transitions ++ [p.transition (guardsUsed commands) command] }
    where
  conditions_eq := by rw [same, holds.conditions_eq]
  lookup_eq := by rw [same]; exact holds.lookup_eq
  transitions_eq := by
    have longer := holds.transitions_concat [] command
    rw [List.append_nil] at longer
    rw [same]
    exact longer

/-- A new guard is numbered after those before. -/
theorem sharedGuard_concat (holds : draft.Holds p commands) {binding : Binding}
    (new : binding ∉ guardsUsed commands) :
    p.sharedGuard (guardsUsed commands ++ [binding]) binding = draft.conditions.length := by
  rw [sharedGuard, List.idxOf_append_of_notMem new, holds.conditions_eq, List.length_append,
    List.length_map, length_locationConditions, List.idxOf_cons_self, Nat.add_zero]

/-- **A command that brings a new guard.** -/
theorem push (holds : draft.Holds p commands) {binding : Binding}
    (new : binding ∉ guardsUsed commands)
    (longer : guardsUsed (commands ++ [command]) = guardsUsed commands ++ [binding]) :
    Holds p (commands ++ [command])
      { conditions := draft.conditions ++ [.shared binding]
        numbers := (binding, draft.conditions.length) :: draft.numbers
        transitions := draft.transitions
          ++ [p.transition (guardsUsed commands ++ [binding]) command] } where
  conditions_eq := by
    rw [longer, List.map_append, holds.conditions_eq, List.append_assoc]
    rfl
  lookup_eq := by
    intro other
    rw [longer, List.lookup_cons]
    by_cases same : other = binding
    · subst same
      rw [beq_self_eq_true, if_pos (List.mem_append_right _ List.mem_cons_self),
        holds.sharedGuard_concat new]
    · rw [beq_false_of_ne same]
      refine (holds.lookup_eq other).trans ?_
      by_cases known : other ∈ guardsUsed commands
      · rw [if_pos known, if_pos (List.mem_append_left _ known), sharedGuard, sharedGuard,
          List.idxOf_append_of_mem known]
      · have unknown : other ∉ guardsUsed commands ++ [binding] := by simp [known, same]
        rw [if_neg known, if_neg unknown]
  transitions_eq := by
    rw [longer]
    exact holds.transitions_concat [binding] command

/-- **One more command.** -/
theorem add (holds : draft.Holds p commands) (command : Command) :
    (draft.add p command).Holds p (commands ++ [command]) := by
  have used : guardsUsed (commands ++ [command])
      = (commands.filterMap Command.guard ++ command.guard.toList).eraseDups := by
    rw [guardsUsed, List.filterMap_append]
    cases guarded : command.guard with
    | none => rw [List.filterMap_cons_none guarded]; rfl
    | some binding => rw [List.filterMap_cons_some guarded]; rfl
  unfold Draft.add
  dsimp only
  cases guarded : command.guard with
  | none =>
    have same : guardsUsed (commands ++ [command]) = guardsUsed commands := by
      rw [used, guarded]
      exact congrArg _ (List.append_nil _)
    have own : footprint p command [p.locationGuard command.process command.source]
        = p.transition (guardsUsed commands) command := footprint_eq (by rw [guarded]; rfl)
    dsimp only
    rw [own]
    exact holds.keep same
  | some binding =>
    have own : ∀ used number, number = p.sharedGuard used binding →
        footprint p command [p.locationGuard command.process command.source, number]
          = p.transition used command := fun used number same =>
      footprint_eq (by rw [guarded, same]; rfl)
    have found := holds.lookup_eq binding
    rw [guarded] at used
    have used := used.trans (eraseDups_concat _ binding)
    dsimp only
    by_cases known : binding ∈ commands.filterMap Command.guard
    · have member : binding ∈ guardsUsed commands := List.mem_eraseDups.mpr known
      rw [if_pos known, List.append_nil] at used
      rw [if_pos member] at found
      rw [found]
      dsimp only
      rw [own _ _ rfl]
      exact holds.keep used
    · have new : binding ∉ guardsUsed commands := fun member =>
        known (List.mem_eraseDups.mp member)
      rw [if_neg known] at used
      rw [if_neg new] at found
      rw [found]
      dsimp only
      rw [own _ _ (holds.sharedGuard_concat new).symm]
      exact holds.push new used

/-- **All commands.** -/
theorem foldl_add (holds : draft.Holds p commands) (rest : List Command) :
    (rest.foldl (Draft.add p) draft).Holds p (commands ++ rest) := by
  induction rest generalizing commands draft with
  | nil => rwa [List.append_nil]
  | cons command rest ih =>
    have later := ih (holds.add command)
    rwa [List.append_assoc] at later

end Draft.Holds

/-! ### The pass over the pairs -/

theorem exclusivePairs_append {first second : List (Condition × Nat)}
    (apart : ∀ a ∈ first, ∀ b ∈ second, a.1.excludes b.1 = false) :
    exclusivePairs (first ++ second) = exclusivePairs first ++ exclusivePairs second := by
  induction first with
  | nil => rfl
  | cons head rest ih =>
    have none : second.filter (fun other => head.1.excludes other.1) = [] :=
      List.filter_eq_nil_iff.mpr fun b member => by
        rw [apart head List.mem_cons_self b member]
        exact Bool.false_ne_true
    rw [List.cons_append, exclusivePairs, exclusivePairs, List.filter_append, none, List.append_nil,
      ih fun a member => apart a (List.mem_cons_of_mem _ member), List.append_assoc]

/-- The pairs among the guards of the commands. -/
theorem exclusivePairs_shared (numbered : List (Binding × Nat)) :
    exclusivePairs (numbered.map (Prod.map .shared id)) = sharedPairs numbered := by
  induction numbered with
  | nil => rfl
  | cons first rest ih =>
    rw [List.map_cons, Prod.map, exclusivePairs, sharedPairs, ih, List.filter_map, List.map_map]
    rfl

/-- The pairs among conditions that are numbered without a gap. -/
theorem exclusivePairs_range (condition : Nat → Condition) (start count : Nat) :
    exclusivePairs ((List.range' start count).map fun g => (condition g, g))
      = (List.range' start count).flatMap fun g =>
          ((List.range' (g + 1) (start + count - (g + 1))).filter fun h =>
            (condition g).excludes (condition h)).map fun h => (g, h) := by
  induction count generalizing start with
  | zero => rfl
  | succ count ih =>
    have length : start + (count + 1) - (start + 1) = count := by omega
    have later : ∀ g, start + 1 + count - (g + 1) = start + (count + 1) - (g + 1) := by omega
    rw [List.range'_succ, List.map_cons, exclusivePairs, ih, List.flatMap_cons, length,
      List.filter_map, List.map_map]
    simp only [later]
    rfl

theorem excludes_of_contrary {first second : Condition} (contrary : first.Contrary second) :
    first.excludes second = true := by
  cases contrary with
  | location differ => simp [Condition.excludes, differ]
  | shared same differ => simp [Condition.excludes, Binding.excludes, same, differ]

/-- What a guard for a location tests, by number. -/
def locationCondition (p : Program) (guard : Nat) : Condition :=
  .location (guard / p.locationCount.toNat) (.ofNat (guard % p.locationCount.toNat))

/-- **A guard for a location excludes the others of its process**, which come next up to the end of
the row. -/
theorem filter_excludes_range {p : Program} {g : Nat} (inside : g < p.locationGuardCount) :
    (List.range' (g + 1) (p.locationGuardCount - (g + 1))).filter
        (fun h => (p.locationCondition g).excludes (p.locationCondition h))
      = List.range' (g + 1) (p.locationCount.toNat - 1 - g % p.locationCount.toNat) := by
  have positive : 0 < p.locationCount.toNat := by
    refine Nat.pos_of_ne_zero fun none => ?_
    rw [locationGuardCount, none, Nat.mul_zero] at inside
    exact Nat.not_lt_zero g inside
  have column := Nat.mod_lt g positive
  have place := Nat.div_add_mod g p.locationCount.toNat
  have ends : g + 1 + (p.locationCount.toNat - 1 - g % p.locationCount.toNat)
      = p.locationCount.toNat * (g / p.locationCount.toNat + 1) := by
    rw [Nat.mul_add, Nat.mul_one]
    omega
  have rows : p.locationCount.toNat * (g / p.locationCount.toNat + 1) ≤ p.locationGuardCount := by
    rw [locationGuardCount, Nat.mul_comm p.processCount]
    exact Nat.mul_le_mul_left _ ((Nat.div_lt_iff_lt_mul positive).mpr inside)
  obtain ⟨beyond, count⟩ : ∃ beyond, p.locationGuardCount - (g + 1)
      = p.locationCount.toNat - 1 - g % p.locationCount.toNat + beyond :=
    Nat.exists_eq_add_of_le (by omega)
  rw [count, ← List.range'_append, Nat.one_mul, List.filter_append]
  have all : ∀ h ∈ List.range' (g + 1) (p.locationCount.toNat - 1 - g % p.locationCount.toNat),
      (p.locationCondition g).excludes (p.locationCondition h) = true := by
    intro h member
    have paired : (g, h) ∈ p.locationPairs := List.mem_flatMap.mpr
      ⟨g, List.mem_range.mpr inside, List.mem_map.mpr ⟨h, member, rfl⟩⟩
    have inside' : h < p.locationGuardCount := by
      have below := (List.mem_range'_1.mp member).2
      omega
    obtain ⟨first, second, here, there, contrary⟩ := contrary_of_mem_locationPairs paired
    rw [getElem?_conditions_of_lt inside, Option.some.injEq] at here
    rw [getElem?_conditions_of_lt inside', Option.some.injEq] at there
    rw [locationCondition, locationCondition, here, there]
    exact excludes_of_contrary contrary
  have none : ∀ h ∈ List.range' (g + 1 + (p.locationCount.toNat - 1 - g % p.locationCount.toNat))
      beyond, ¬ (p.locationCondition g).excludes (p.locationCondition h) = true := by
    intro h member
    have above := (List.mem_range'_1.mp member).1
    rw [ends] at above
    have row : g / p.locationCount.toNat < h / p.locationCount.toNat :=
      (Nat.le_div_iff_mul_le positive).mpr (by rwa [Nat.mul_comm])
    simp [locationCondition, Condition.excludes, Nat.ne_of_lt row]
  rw [List.filter_eq_self.mpr all, List.filter_eq_nil_iff.mpr none, List.append_nil]

/-- The pairs among the guards for the locations. -/
theorem exclusivePairs_location (p : Program) :
    exclusivePairs p.locationConditions.zipIdx = p.locationPairs := by
  have numbered : p.locationConditions.zipIdx
      = (List.range' 0 p.locationGuardCount).map fun g => (p.locationCondition g, g) := by
    refine List.ext_getElem? fun g => ?_
    rw [List.getElem?_zipIdx, locationConditions, List.getElem?_map, List.getElem?_map,
      ← List.range_eq_range']
    by_cases inside : g < p.locationGuardCount
    · rw [List.getElem?_range inside]
      simp [locationCondition]
    · rw [List.getElem?_eq_none (by simpa using inside)]
      rfl
  rw [numbered, exclusivePairs_range, locationPairs, ← List.range_eq_range', Nat.zero_add]
  refine List.flatMap_congr fun g member => ?_
  rw [filter_excludes_range (List.mem_range.mp member)]

/-- **The pairs of all guards**: no guard for a location excludes a shared one. -/
theorem exclusivePairs_conditions (p : Program) :
    exclusivePairs p.conditions.zipIdx
      = p.locationPairs ++ sharedPairs (p.sharedGuards.zipIdx p.locationGuardCount) := by
  rw [conditions, List.zipIdx_append, exclusivePairs_append, exclusivePairs_location,
    length_locationConditions, Nat.zero_add, List.zipIdx_map, exclusivePairs_shared]
  intro a first b second
  have location : a.1 ∈ p.locationConditions := List.fst_mem_of_mem_zipIdx first
  have shared : b.1 ∈ p.sharedGuards.map Condition.shared := List.fst_mem_of_mem_zipIdx second
  obtain ⟨g, _, here⟩ := List.mem_map.mp location
  obtain ⟨binding, _, there⟩ := List.mem_map.mp shared
  rw [← here, ← there]
  rfl

/-- **The pass builds the description.** -/
theorem build_eq (p : Program) : p.build = p.system := by
  have holds := (Draft.Holds.start p).foldl_add p.commands.toList
  rw [List.nil_append] at holds
  have conditions : (p.commands.toList.foldl (Draft.add p) (Draft.start p)).conditions
      = p.conditions := holds.conditions_eq
  have transitions : (p.commands.toList.foldl (Draft.add p) (Draft.start p)).transitions.toArray
      = p.commands.map (p.transition p.sharedGuards) := by
    rw [holds.transitions_eq, ← Array.toList_map, Array.toArray_toList]
    rfl
  unfold build system
  dsimp only
  rw [conditions, transitions, exclusivePairs_conditions]

end Program

end StateSpace

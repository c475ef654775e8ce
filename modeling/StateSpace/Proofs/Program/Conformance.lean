/-
**A program keeps to its description.**

* `Program.hasGuard_iff`, `Program.guardReads_iff`, `Program.writes_iff` — the declared footprints
  of a program in terms of its commands.
* `Model.State`, `Model.semantics` — the images with a byte per variable, and what the commands do
  to them.
* `Model.conforms` — the commands write only what is declared, the conditions read only what is
  declared, and contrary conditions never hold together: all that a reduction relies on.
-/

import StateSpace.Proofs.Program.Execution
import StateSpace.Proofs.Reduction.Semantics

namespace StateSpace

/-! ### Footprints -/

namespace Program

theorem hasGuard_iff {p : Program} {t g : Nat} :
    p.system.HasGuard t g ↔ ∃ command, p.commands[t]? = some command ∧
      (g = p.locationGuard command.process command.source ∨
        ∃ binding, command.guard = some binding ∧ g = p.sharedGuard p.sharedGuards binding) := by
  unfold TransitionSystem.HasGuard
  rw [getElem?_transitions]
  constructor
  · rintro ⟨transition, found, member⟩
    obtain ⟨command, used, rfl⟩ := Option.map_eq_some_iff.mp found
    refine ⟨command, used, (List.mem_cons.mp member).imp_right fun shared => ?_⟩
    obtain ⟨binding, guarded, same⟩ := List.mem_map.mp shared
    exact ⟨binding, Option.mem_toList.mp guarded, same.symm⟩
  · rintro ⟨command, used, which⟩
    refine ⟨_, Option.map_eq_some_iff.mpr ⟨command, used, rfl⟩, List.mem_cons.mpr ?_⟩
    refine which.imp_right ?_
    rintro ⟨binding, guarded, rfl⟩
    exact List.mem_map.mpr ⟨binding, Option.mem_toList.mpr guarded, rfl⟩

theorem guardReads_iff {p : Program} {g v : Nat} :
    p.system.GuardReads g v ↔
      ∃ condition, p.conditions[g]? = some condition ∧ v = p.conditionRead condition := by
  unfold TransitionSystem.GuardReads
  rw [getElem?_guards]
  constructor
  · rintro ⟨guard, found, member⟩
    obtain ⟨condition, tested, rfl⟩ := Option.map_eq_some_iff.mp found
    exact ⟨condition, tested, List.mem_singleton.mp member⟩
  · rintro ⟨condition, tested, rfl⟩
    exact ⟨_, Option.map_eq_some_iff.mpr ⟨condition, tested, rfl⟩, List.mem_singleton.mpr rfl⟩

theorem writes_iff {p : Program} {t v : Nat} :
    p.system.Writes t v ↔ ∃ command, p.commands[t]? = some command ∧
      (v = command.process ∨ ∃ binding, command.update = some binding ∧ v = p.slot binding) := by
  unfold TransitionSystem.Writes
  rw [getElem?_transitions]
  constructor
  · rintro ⟨transition, found, member⟩
    obtain ⟨command, used, rfl⟩ := Option.map_eq_some_iff.mp found
    refine ⟨command, used, (List.mem_cons.mp member).imp_right fun updated => ?_⟩
    obtain ⟨binding, update, same⟩ := List.mem_map.mp updated
    exact ⟨binding, Option.mem_toList.mp update, same.symm⟩
  · rintro ⟨command, used, which⟩
    refine ⟨_, Option.map_eq_some_iff.mpr ⟨command, used, rfl⟩, List.mem_cons.mpr ?_⟩
    refine which.imp_right ?_
    rintro ⟨binding, update, rfl⟩
    exact List.mem_map.mpr ⟨binding, Option.mem_toList.mpr update, rfl⟩

/-- A condition depends on the byte that it reads. -/
theorem tests_congr {p : Program} {first second : List UInt8} {condition : Condition}
    (same : first[p.conditionRead condition]? = second[p.conditionRead condition]?) :
    p.tests first condition = p.tests second condition := by
  cases condition with
  | location process location =>
    simp only [conditionRead] at same
    simp only [tests, same]
  | shared binding =>
    simp only [conditionRead] at same
    simp only [tests, bound, same]

/-- **Contrary conditions never hold together.** -/
theorem not_tests_of_contrary {p : Program} {image : List UInt8} {first second : Condition}
    (contrary : first.Contrary second) :
    ¬ (p.tests image first = true ∧ p.tests image second = true) := by
  rintro ⟨holds, holds'⟩
  cases contrary with
  | location differ =>
    simp only [tests, beq_iff_eq] at holds holds'
    rw [holds, Option.some.injEq] at holds'
    exact differ holds'
  | shared same differ =>
    simp only [tests, bound, slot, beq_iff_eq] at holds holds'
    rw [same, holds', Option.some.injEq] at holds
    exact differ holds.symm

end Program

namespace Command

variable {p : Program} {image : List UInt8} {command : Command}

/-- A command is enabled where its process stands at its source and its guard holds. -/
theorem ready_iff : command.ready p image = true ↔
    image[command.process]? = some command.source ∧
      ∀ binding, command.guard = some binding → p.bound image binding = true := by
  rw [ready, Bool.and_eq_true, beq_iff_eq, Option.all_eq_true]

/-- **A command changes only what it writes.** -/
theorem getElem?_apply_of_ne {v : Nat} (process : v ≠ command.process)
    (update : ∀ binding, command.update = some binding → v ≠ p.slot binding) :
    (command.apply p image)[v]? = image[v]? := by
  unfold Command.apply
  cases updated : command.update with
  | none => exact List.getElem?_set_ne process.symm
  | some binding =>
    exact (List.getElem?_set_ne (update binding updated).symm).trans
      (List.getElem?_set_ne process.symm)

theorem getElem?_set_congr {first second : List UInt8} (size : first.length = second.length)
    {place v : Nat} {byte : UInt8} (same : v = place ∨ first[v]? = second[v]?) :
    (first.set place byte)[v]? = (second.set place byte)[v]? := by
  rw [List.getElem?_set, List.getElem?_set, size]
  rcases same with rfl | same
  · rw [if_pos rfl, if_pos rfl]
  · rw [same]

/-- **What a command writes does not depend on the image.** -/
theorem getElem?_apply_congr {first second : List UInt8} (size : first.length = second.length)
    {v : Nat} (written : v = command.process ∨
      ∃ binding, command.update = some binding ∧ v = p.slot binding) :
    (command.apply p first)[v]? = (command.apply p second)[v]? := by
  unfold Command.apply
  cases updated : command.update with
  | none =>
    refine getElem?_set_congr size (.inl (written.resolve_right ?_))
    rintro ⟨binding, update, _⟩
    rw [updated] at update
    cases update
  | some binding =>
    refine getElem?_set_congr (by rw [List.length_set, List.length_set, size]) ?_
    rcases written with process | ⟨other, update, same⟩
    · exact .inr (getElem?_set_congr size (.inl process))
    · rw [updated, Option.some.injEq] at update
      rw [update]
      exact .inl same

end Command

/-! ### The semantics of a model -/

namespace Model

/-- **The states of a model**: a byte per variable. -/
def State (m : Model) : Type :=
  { image : List UInt8 // image.length = m.program.imageSize }

/-- The state after firing a transition. -/
def State.fire {m : Model} (x : m.State) (t : Nat) : m.State :=
  match m.program.commands[t]? with
  | some command => ⟨command.apply m.program x.1, by rw [Command.length_apply, x.2]⟩
  | none => x

/-- **What a model does**, faults apart. -/
def semantics (m : Model) : Semantics m.State (Option UInt8) where
  value x v := x.1[v]?
  holds x g := ((m.program.conditions[g]?).map (m.program.tests x.1)).getD false
  enabled x t := ∃ command, m.program.commands[t]? = some command ∧
    command.ready m.program x.1 = true
  fire := State.fire

variable {m : Model}

theorem val_fire {x : m.State} {t : Nat} {command : Command}
    (used : m.program.commands[t]? = some command) :
    (m.semantics.fire x t).1 = command.apply m.program x.1 := by
  simp only [semantics, State.fire]
  split
  · next other found =>
    rw [used, Option.some.injEq] at found
    rw [found]
  · next missing =>
    rw [used] at missing
    cases missing

theorem fire_of_none {x : m.State} {t : Nat} (missing : m.program.commands[t]? = none) :
    m.semantics.fire x t = x := by
  simp only [semantics, State.fire]
  split
  · next command found =>
    rw [missing] at found
    cases found
  · rfl

theorem holds_of_getElem? {x : m.State} {g : Nat} {condition : Condition}
    (found : m.program.conditions[g]? = some condition) :
    m.semantics.holds x g = m.program.tests x.1 condition := by
  simp only [semantics, found, Option.map_some, Option.getD_some]

/-- **A command is enabled where its declared guards hold.** -/
theorem semantics_enabled_iff {x : m.State} {t : Nat} :
    m.semantics.enabled x t ↔
      t < m.system.transitions.size ∧
        ∀ g, m.system.HasGuard t g → m.semantics.holds x g = true := by
  have size : m.system.transitions.size = m.program.commands.size := Array.size_map
  constructor
  · rintro ⟨command, used, isReady⟩
    obtain ⟨stands, guarded⟩ := Command.ready_iff.mp isReady
    have fits := m.fits_of_getElem? used
    refine ⟨size ▸ (Array.getElem?_eq_some_iff.mp used).1, fun g has => ?_⟩
    obtain ⟨command', used', which⟩ := Program.hasGuard_iff.mp has
    rw [used, Option.some.injEq] at used'
    subst used'
    rcases which with rfl | ⟨binding, given, rfl⟩
    · rw [holds_of_getElem? (Program.getElem?_conditions_location fits.process fits.source)]
      exact beq_iff_eq.mpr stands
    · have shared := Program.mem_sharedGuards.mpr ⟨t, command, used, given⟩
      rw [holds_of_getElem? (Program.getElem?_conditions_shared shared)]
      exact guarded binding given
  · rintro ⟨inside, holds⟩
    rw [size] at inside
    have used : m.program.commands[t]? = some m.program.commands[t] :=
      Array.getElem?_eq_getElem inside
    have fits := m.fits_of_getElem? used
    refine ⟨_, used, Command.ready_iff.mpr ⟨?_, fun binding given => ?_⟩⟩
    · have stands := holds _ (Program.hasGuard_iff.mpr ⟨_, used, .inl rfl⟩)
      rw [holds_of_getElem? (Program.getElem?_conditions_location fits.process fits.source)]
        at stands
      exact beq_iff_eq.mp stands
    · have shared := Program.mem_sharedGuards.mpr ⟨t, _, used, given⟩
      have guarded := holds _ (Program.hasGuard_iff.mpr ⟨_, used, .inr ⟨binding, given, rfl⟩⟩)
      rw [holds_of_getElem? (Program.getElem?_conditions_shared shared)] at guarded
      exact guarded

/-- **A model keeps to its description.** -/
theorem conforms (m : Model) : m.semantics.Conforms m.system where
  ext {x y} same := by
    refine Subtype.ext (List.ext_getElem? fun v => ?_)
    rcases Nat.lt_or_ge v m.program.imageSize with inside | beyond
    · exact same v inside
    · rw [List.getElem?_eq_none (by rw [x.2]; exact beyond),
        List.getElem?_eq_none (by rw [y.2]; exact beyond)]
  enabled_iff := semantics_enabled_iff
  holds_congr {x y g} known same := by
    have inside : g < m.program.conditions.length := by
      rwa [← Program.size_guards]
    have found := List.getElem?_eq_getElem inside
    rw [holds_of_getElem? found, holds_of_getElem? found]
    exact Program.tests_congr (same _ (Program.guardReads_iff.mpr ⟨_, found, rfl⟩))
  frame {x t v} enabled _ unwritten := by
    obtain ⟨command, used, _⟩ := enabled
    show (m.semantics.fire x t).1[v]? = x.1[v]?
    rw [val_fire used]
    refine Command.getElem?_apply_of_ne (fun process => ?_) fun binding update same => ?_
    · exact unwritten (Program.writes_iff.mpr ⟨command, used, .inl process⟩)
    · exact unwritten (Program.writes_iff.mpr ⟨command, used, .inr ⟨binding, update, same⟩⟩)
  fire_congr {x y t v} _ _ _ writes := by
    obtain ⟨command, used, written⟩ := Program.writes_iff.mp writes
    show (m.semantics.fire x t).1[v]? = (m.semantics.fire y t).1[v]?
    rw [val_fire used, val_fire used]
    exact Command.getElem?_apply_congr (x.2.trans y.2.symm) written
  exclusive {x g h} member := by
    obtain ⟨first, second, found, found', contrary⟩ :=
      Program.contrary_of_mem_exclusiveGuards member
    rw [holds_of_getElem? found, holds_of_getElem? found']
    exact Program.not_tests_of_contrary contrary
  enablers {x t g guard declared} found given := by
    have found : m.program.system.guards[g]? = some guard := found
    rw [Program.getElem?_guards, Option.map_eq_some_iff] at found
    obtain ⟨condition, _, rfl⟩ := found
    cases given

end Model

end StateSpace

/-
**How a program is executed.**

On an image with a byte per variable nothing breaks off. What the commands then do is said here in
terms of the bytes.

* `Program.tests` — whether a condition holds.
* `Command.ready`, `Command.faulty`, `Command.apply` — whether a command is enabled, whether its
  forbidden binding holds, and the bytes after it.
* `Model.readyNumbers`, `Model.reaction` — the enabled commands, and what firing a transition
  reports.
* `Model.enabled_eq`, `Model.guardHolds_eq`, `Model.report_eq` — the model does just that.
-/

import StateSpace.Proofs.Program.Description

namespace StateSpace

/-- Whether a binding holds in an image. -/
def Program.bound (p : Program) (image : List UInt8) (binding : Binding) : Bool :=
  image[p.slot binding]? == some binding.value

/-- **Whether a condition holds in an image.** -/
def Program.tests (p : Program) (image : List UInt8) : Condition → Bool
  | .location process location => image[process]? == some location
  | .shared binding => p.bound image binding

/-- **Whether a command is enabled in an image.** -/
def Command.ready (p : Program) (image : List UInt8) (command : Command) : Bool :=
  image[command.process]? == some command.source && command.guard.all (p.bound image)

/-- Whether the forbidden binding of a command holds. -/
def Command.faulty (p : Program) (image : List UInt8) (command : Command) : Bool :=
  command.forbidden.any (p.bound image)

/-- **The bytes after a command.** -/
def Command.apply (p : Program) (image : List UInt8) (command : Command) : List UInt8 :=
  match command.update with
  | none => image.set command.process command.target
  | some binding =>
    (image.set command.process command.target).set (p.slot binding) binding.value

@[simp] theorem Command.length_apply (p : Program) (image : List UInt8) (command : Command) :
    (command.apply p image).length = image.length := by
  unfold Command.apply
  split <;> simp

/-- What firing an enabled command reports. -/
def Command.event (p : Program) (image : List UInt8) (number : Nat) (command : Command) : Event :=
  if command.faulty p image then
    .fault ⟨.assertion, command.process, command.source.toUInt32, some number⟩
  else .successor (command.apply p image) ⟨number, command.process⟩

namespace Model

/-- The commands of a model fit. -/
theorem fits_of_getElem? (m : Model) {t : Nat} {command : Command}
    (used : m.program.commands[t]? = some command) : command.Fits m.program :=
  Program.violations_eq_nil_iff.mp m.inOrder t command used

/-- The numbers of the enabled commands. -/
def readyNumbers (m : Model) (image : List UInt8) : List Nat :=
  (m.program.commands.toList.zipIdx.filter fun (command, _) =>
    command.ready m.program image).map Prod.snd

theorem mem_readyNumbers {m : Model} {image : List UInt8} {t : Nat} :
    t ∈ m.readyNumbers image ↔
      ∃ command, m.program.commands[t]? = some command ∧ command.ready m.program image = true := by
  rw [readyNumbers, List.mem_map]
  constructor
  · rintro ⟨⟨command, number⟩, member, rfl⟩
    obtain ⟨inside, isReady⟩ := List.mem_filter.mp member
    have found := List.mem_zipIdx_iff_getElem?.mp inside
    rw [Array.getElem?_toList] at found
    exact ⟨command, found, isReady⟩
  · rintro ⟨command, found, isReady⟩
    refine ⟨(command, t), List.mem_filter.mpr ⟨List.mem_zipIdx_iff_getElem?.mpr ?_, isReady⟩, rfl⟩
    rw [Array.getElem?_toList]
    exact found

/-- What firing a transition reports, if it is enabled. -/
def reaction (m : Model) (image : List UInt8) (t : Nat) : Option Event :=
  (m.program.commands[t]?).bind fun command =>
    if command.ready m.program image then some (command.event m.program image t) else none

/-! ### Images with a byte per variable -/

theorem byteAt_eq {image : List UInt8} {place : Nat} (inside : place < image.length) :
    byteAt image place = .ok image[place] := by
  rw [byteAt, List.getElem?_eq_getElem inside]

section Sized

variable {m : Model} {image : List UInt8} (sized : image.length = m.program.imageSize)

include sized

theorem holds_eq {binding : Binding} (inside : binding.index < m.program.variableCount) :
    m.holds image binding = .ok (m.program.bound image binding) := by
  have place : m.program.slot binding < image.length := by
    rw [sized]
    exact Nat.add_lt_add_left inside _
  rw [holds, byteAt_eq place, Program.bound, List.getElem?_eq_getElem place]
  rfl

theorem enables_eq {command : Command} (fits : command.Fits m.program) :
    m.enables image command = .ok (command.ready m.program image) := by
  have place : command.process < image.length := by
    rw [sized]
    exact Nat.lt_add_right _ fits.process
  rw [enables, byteAt_eq place, Command.ready, List.getElem?_eq_getElem place]
  simp only [bind, Except.bind]
  by_cases stands : image[command.process] = command.source
  · rw [if_pos stands, stands]
    cases guarded : command.guard with
    | none => simp [holdsIfAny]
    | some binding =>
      have inside := (fits.bindings binding (by simp [Command.bindings, guarded])).1
      simp [holdsIfAny, holds_eq sized inside]
  · rw [if_neg stands]
    simp [stands, pure, Except.pure]

theorem moved_eq {command : Command} (fits : command.Fits m.program) :
    m.moved image command = .ok (command.apply m.program image) := by
  have place : command.process < image.length := by
    rw [sized]
    exact Nat.lt_add_right _ fits.process
  rw [moved, writeByte, if_pos place, Command.apply]
  simp only [bind, Except.bind]
  cases updated : command.update with
  | none => rfl
  | some binding =>
    have inside := (fits.bindings binding (by simp [Command.bindings, updated])).1
    have place' : m.program.slot binding < (image.set command.process command.target).length := by
      rw [List.length_set, sized]
      exact Nat.add_lt_add_left inside _
    simp only [writeByte, if_pos place']

/-- **What firing a command reports**, in terms of the bytes. -/
theorem fire_eq {number : Nat} {command : Command} (fits : command.Fits m.program) :
    m.fire image number command = .ok
      (if command.ready m.program image then some (command.event m.program image number)
        else none) := by
  have forbidden : m.holdsIfAny image false command.forbidden
      = .ok (command.faulty m.program image) := by
    unfold Command.faulty
    cases given : command.forbidden with
    | none => rfl
    | some binding =>
      exact holds_eq sized (fits.bindings binding (by simp [Command.bindings, given])).1
  rw [fire, enables_eq sized fits]
  simp only [bind, Except.bind, forbidden, moved_eq sized fits, Command.event]
  by_cases isReady : command.ready m.program image = true
  · rw [if_pos isReady, if_pos isReady]
    by_cases isFaulty : command.faulty m.program image = true
    · rw [if_pos isFaulty, if_pos isFaulty]
      rfl
    · rw [if_neg isFaulty, if_neg isFaulty]
      rfl
  · rw [if_neg isReady, if_neg isReady]
    rfl

theorem events_eq (t : Nat) : m.events image t = (m.reaction image t).toList.map .ok := by
  unfold events reaction
  cases used : m.program.commands[t]? with
  | none => rfl
  | some command =>
    simp only [fire_eq sized (m.fits_of_getElem? used), Option.bind_some]
    split <;> simp_all

/-- **The enabled transitions are the commands that are ready.** -/
theorem enabled_eq : m.enabled image = .ok (m.readyNumbers image) := by
  have among : ∀ numbered : List (Command × Nat),
      (∀ entry ∈ numbered, entry.1.Fits m.program) →
      m.enabledAmong image numbered
        = .ok ((numbered.filter fun (command, _) =>
            command.ready m.program image).map Prod.snd) := by
    intro numbered fits
    induction numbered with
    | nil => rfl
    | cons entry rest ih =>
      have restFits := fun other member => fits other (List.mem_cons_of_mem entry member)
      rw [enabledAmong, enables_eq sized (fits entry List.mem_cons_self), ih restFits]
      simp only [bind, Except.bind, pure, Except.pure, List.filter_cons]
      split <;> rfl
  refine among _ fun entry member => ?_
  obtain ⟨command, number⟩ := entry
  have found := List.mem_zipIdx_iff_getElem?.mp member
  rw [Array.getElem?_toList] at found
  exact m.fits_of_getElem? found

/-- **What is reported for some transitions.** -/
theorem report_eq (ts : List Nat) :
    m.interpreter.report image ts = (ts.filterMap (m.reaction image)).map .ok := by
  show ts.flatMap (m.events image) = _
  induction ts with
  | nil => rfl
  | cons t rest ih =>
    rw [List.flatMap_cons, ih, events_eq sized, List.filterMap_cons]
    cases m.reaction image t with
    | none => rfl
    | some event => rfl

/-- **What the guards test holds or not**, and no guard is out of reach. -/
theorem guardHolds_eq (g : Nat) :
    m.interpreter.guardHolds image g
      = .ok ((m.program.conditions[g]?).map (m.program.tests image)) := by
  show m.guardHolds m.program.conditions.toArray image g = _
  rw [guardHolds, List.getElem?_toArray]
  cases found : m.program.conditions[g]? with
  | none => rfl
  | some condition =>
    have place := Program.conditionRead_lt m.inOrder found
    rw [← sized] at place
    cases condition with
    | location process location =>
      have place : process < image.length := place
      simp only [byteAt_eq place, Option.map_some, Program.tests, List.getElem?_eq_getElem place]
      rfl
    | shared binding =>
      rw [sized] at place
      have inside : binding.index < m.program.variableCount := Nat.lt_of_add_lt_add_left place
      simp only [holds_eq sized inside, Option.map_some, Program.tests]
      rfl

end Sized

end Model

end StateSpace

/-
**Firing one transition after the other.**

* `Interpreter.fired?`, `Interpreter.fault?` — the state that firing a single transition leads to,
  and the fault that it raises.
* `Interpreter.replay?` — the state after firing some transitions, each from where the one before
  led.
* `Model.fired?_eq_some_iff`, `Model.replay?_eq_some_iff` — on a model a transition that fires is an
  enabled command that is not at fault, and a replay is a run of such commands.
* `Model.fault?_fire` — firing an independent command does not change the fault of a command.
* `Model.independent_commute` — of two enabled commands that the analysis takes for independent
  neither disables the other or makes it fail, and they lead to the same state in either order.
-/

import StateSpace.Proofs.Program.Deadlocks

namespace StateSpace

namespace Interpreter

/-- The bytes that firing a transition leads to, if a successor is all that is reported. -/
def fired? (i : Interpreter) (image : List UInt8) (t : Nat) : Option (List UInt8) :=
  match i.report image [t] with
  | [.ok (.successor raw _)] => some raw
  | _ => none

/-- The fault that firing a transition raises, if that is all that is reported. -/
def fault? (i : Interpreter) (image : List UInt8) (t : Nat) : Option Fault :=
  match i.report image [t] with
  | [.ok (.fault raised)] => some raised
  | _ => none

/-- **The bytes after firing transitions one after the other**, if none of them fails. -/
def replay? (i : Interpreter) (image : List UInt8) : List Nat → Option (List UInt8)
  | [] => some image
  | t :: ts => (i.fired? image t).bind fun next => i.replay? next ts

/-- Whether a transition is listed as enabled. -/
def Offers (i : Interpreter) (image : List UInt8) (t : Nat) : Prop :=
  ∃ enabled, i.enabled image = .ok enabled ∧ t ∈ enabled

end Interpreter

namespace Model

variable {m : Model}

theorem wellFormed_system (m : Model) : m.system.WellFormed :=
  Program.system_wellFormed m.inOrder

/-- A model that fits in memory is analysed. -/
theorem analysis_eq (memory : m.system.fitsMemory = true) :
    Analysis.ofSystem m.system = .ok (Analysis.ofValid m.system) :=
  Analysis.ofSystem_eq_ok_iff.mpr ⟨memory, m.wellFormed_system, rfl⟩

/-! ### Firing a command -/

section Sized

variable {image : List UInt8} {t : Nat} {command : Command}
  (sized : image.length = m.program.imageSize) (used : m.program.commands[t]? = some command)

include sized used

theorem report_singleton :
    m.interpreter.report image [t]
      = if command.ready m.program image then [.ok (command.event m.program image t)] else [] := by
  rw [report_eq sized]
  by_cases isReady : command.ready m.program image = true
  · simp [reaction, used, isReady]
  · simp [reaction, used, isReady]

/-- A command that is ready and not at fault leads to the bytes after it. -/
theorem fired?_eq :
    m.interpreter.fired? image t
      = if command.ready m.program image ∧ ¬ command.faulty m.program image then
          some (command.apply m.program image)
        else none := by
  unfold Interpreter.fired?
  rw [report_singleton sized used]
  by_cases isReady : command.ready m.program image = true
  · by_cases isFaulty : command.faulty m.program image = true
    · simp [isReady, isFaulty, Command.event]
    · simp [isReady, isFaulty, Command.event]
  · simp [isReady]

/-- A command that is ready and at fault raises a fault that depends on the command alone. -/
theorem fault?_eq :
    m.interpreter.fault? image t
      = if command.ready m.program image ∧ command.faulty m.program image then
          some ⟨.assertion, command.process, command.source.toUInt32, some t⟩
        else none := by
  unfold Interpreter.fault?
  rw [report_singleton sized used]
  by_cases isReady : command.ready m.program image = true
  · by_cases isFaulty : command.faulty m.program image = true
    · simp [isReady, isFaulty, Command.event]
    · simp [isReady, isFaulty, Command.event]
  · simp [isReady]

end Sized

section States

variable {x : m.State} {t u : Nat}

theorem offers_iff : m.interpreter.Offers x.1 t ↔ m.semantics.enabled x t := by
  have listed : m.interpreter.enabled x.1 = .ok (m.readyNumbers x.1) := Model.enabled_eq x.2
  rw [← mem_readyNumbers_iff, Interpreter.Offers, listed]
  simp

/-- **A transition fires** if it is an enabled command that is not at fault. -/
theorem fired?_eq_some_iff {next : List UInt8} :
    m.interpreter.fired? x.1 t = some next ↔
      m.faultless.enabled x t ∧ next = (m.semantics.fire x t).1 := by
  cases used : m.program.commands[t]? with
  | none => simp [Interpreter.fired?, report_eq x.2, reaction, used, semantics, Semantics.restrict]
  | some command =>
    rw [fired?_eq x.2 used, val_fire used, Option.ite_none_right_eq_some, Option.some.injEq]
    refine and_congr ?_ eq_comm
    simp [semantics, Semantics.restrict, State.Faulty, used]

theorem fired?_of_enabled (enabled : m.semantics.enabled x t) (clean : ¬ x.Faulty t) :
    m.interpreter.fired? x.1 t = some (m.semantics.fire x t).1 :=
  fired?_eq_some_iff.mpr ⟨⟨enabled, clean⟩, rfl⟩

/-- An enabled command raises a fault where it is at fault. -/
theorem fault?_eq_none_iff (enabled : m.semantics.enabled x t) :
    m.interpreter.fault? x.1 t = none ↔ ¬ x.Faulty t := by
  obtain ⟨command, used, isReady⟩ := enabled
  rw [fault?_eq x.2 used]
  simp [State.Faulty, used, isReady]

/-- All faults of commands are failed assertions. -/
theorem code_of_fault? (enabled : m.semantics.enabled x t) {fault : Fault}
    (raised : m.interpreter.fault? x.1 t = some fault) : fault.code = .assertion := by
  obtain ⟨command, used, isReady⟩ := enabled
  rw [fault?_eq x.2 used, Option.ite_none_right_eq_some] at raised
  obtain ⟨_, same⟩ := raised
  cases same
  rfl

/-! ### Firing commands one after the other -/

/-- **A replay is a run** of commands that are not at fault. -/
theorem replay?_eq_some_iff {ts : List Nat} {last : List UInt8} :
    m.interpreter.replay? x.1 ts = some last ↔ ∃ y, m.faultless.Run x ts y ∧ y.1 = last := by
  induction ts generalizing x with
  | nil =>
    rw [Interpreter.replay?, Option.some.injEq]
    refine ⟨fun same => ⟨x, .nil x, same⟩, fun ⟨y, run, same⟩ => ?_⟩
    cases run
    exact same
  | cons t rest ih =>
    rw [Interpreter.replay?, Option.bind_eq_some_iff]
    constructor
    · rintro ⟨next, fires, later⟩
      obtain ⟨enabled, rfl⟩ := fired?_eq_some_iff.mp fires
      obtain ⟨y, run, same⟩ := ih.mp later
      exact ⟨y, .cons enabled run, same⟩
    · rintro ⟨y, run, same⟩
      cases run with
      | cons enabled run =>
        exact ⟨_, fired?_eq_some_iff.mpr ⟨enabled, rfl⟩, ih.mpr ⟨y, run, same⟩⟩

/-! ### Independent commands -/

section Independent

variable (enabled : m.semantics.enabled x t) (fired : m.semantics.enabled x u)
  (independent : ¬ m.system.Dependent t u)

include enabled fired independent

/-- **Firing an independent command does not change the fault** of a command. -/
theorem fault?_fire :
    m.interpreter.fault? (m.semantics.fire x u).1 t = m.interpreter.fault? x.1 t := by
  have wellFormed := m.wellFormed_system
  have stays := m.conforms.enabled_fire wellFormed enabled fired independent
  have clean := m.conforms.local_fire_iff wellFormed m.local_clean fired independent
  obtain ⟨command, used, isReady⟩ := enabled
  obtain ⟨command', used', stillReady⟩ := stays
  rw [used, Option.some.injEq] at used'
  subst used'
  have faulty : command.faulty m.program (m.semantics.fire x u).1 = true ↔
      command.faulty m.program x.1 = true := by
    simpa [State.Faulty, used] using not_congr clean
  rw [fault?_eq (m.semantics.fire x u).2 used, fault?_eq x.2 used]
  simp only [isReady, stillReady, faulty]

/-- A command that fires does so after an independent one. -/
theorem fired?_fire (clean : ¬ x.Faulty t) :
    m.interpreter.fired? (m.semantics.fire x u).1 t
      = some (m.semantics.fire (m.semantics.fire x u) t).1 := by
  have wellFormed := m.wellFormed_system
  refine fired?_of_enabled (m.conforms.enabled_fire wellFormed enabled fired independent) ?_
  exact (m.conforms.local_fire_iff wellFormed m.local_clean fired independent).mpr clean

end Independent

end States

/-- **Independent commands.** In a program that is accepted and whose analysis fits in memory, take
two commands that are enabled in an image with a byte per process and variable, and that the
analysis takes for independent. Where one of them fires, the other one raises the fault that it
raised before, a failed assertion, or none as before. If neither raises one, each is enabled after
the other, and they lead to the same bytes in either order. -/
theorem independent_commute {p : Program} {m : Model} (accepted : ofProgram p = .ok m)
    (memory : m.system.fitsMemory = true) :
    ∃ a, Analysis.ofSystem m.system = .ok a ∧
      ∀ (image : List UInt8) (t u : Nat), image.length = p.imageSize →
        m.interpreter.Offers image t → m.interpreter.Offers image u →
        a.dependent.get t u = false →
          (∀ after, m.interpreter.fired? image u = some after →
            m.interpreter.fault? after t = m.interpreter.fault? image t) ∧
          (∀ after, m.interpreter.fired? image t = some after →
            m.interpreter.fault? after u = m.interpreter.fault? image u) ∧
          (∀ fault, m.interpreter.fault? image t = some fault ∨
            m.interpreter.fault? image u = some fault → fault.code = .assertion) ∧
          (m.interpreter.fault? image t = none → m.interpreter.fault? image u = none →
            ∃ first second last, m.interpreter.fired? image t = some first ∧
              m.interpreter.fired? image u = some second ∧
              m.interpreter.Offers first u ∧ m.interpreter.Offers second t ∧
              m.interpreter.fired? first u = some last ∧
              m.interpreter.fired? second t = some last) := by
  have wellFormed := m.wellFormed_system
  refine ⟨_, analysis_eq memory, fun image t u sized offers offersOther apart => ?_⟩
  rw [← program_of_ofProgram accepted] at sized
  obtain ⟨x, rfl⟩ : ∃ x : m.State, x.1 = image := ⟨⟨image, sized⟩, rfl⟩
  have enabled := offers_iff.mp offers
  have enabled' := offers_iff.mp offersOther
  have independent : ¬ m.system.Dependent t u := by
    rw [← Analysis.get_dependent_iff wellFormed, apart]
    exact Bool.false_ne_true
  have independent' : ¬ m.system.Dependent u t := fun dependent => independent dependent.symm
  refine ⟨fun after fires => ?_, fun after fires => ?_, fun fault raised => ?_,
    fun clean clean' => ?_⟩
  · obtain ⟨_, rfl⟩ := fired?_eq_some_iff.mp fires
    exact fault?_fire enabled enabled' independent
  · obtain ⟨_, rfl⟩ := fired?_eq_some_iff.mp fires
    exact fault?_fire enabled' enabled independent'
  · exact raised.elim (code_of_fault? enabled) (code_of_fault? enabled')
  · rw [fault?_eq_none_iff enabled] at clean
    rw [fault?_eq_none_iff enabled'] at clean'
    refine ⟨_, _, _, fired?_of_enabled enabled clean, fired?_of_enabled enabled' clean',
      offers_iff.mpr (m.conforms.enabled_fire wellFormed enabled' enabled independent'),
      offers_iff.mpr (m.conforms.enabled_fire wellFormed enabled enabled' independent),
      fired?_fire enabled' enabled independent' clean', ?_⟩
    rw [m.conforms.fire_comm wellFormed enabled enabled' independent]
    exact fired?_fire enabled enabled' independent clean

/-- Two processes that take different locks may do so in either order. -/
theorem independent_commute_crossedLocks :
    ∃ first second last, crossedLocksModel.interpreter.fired? [0, 0, 0, 0] 0 = some first ∧
      crossedLocksModel.interpreter.fired? [0, 0, 0, 0] 2 = some second ∧
      crossedLocksModel.interpreter.Offers first 2 ∧
      crossedLocksModel.interpreter.Offers second 0 ∧
      crossedLocksModel.interpreter.fired? first 2 = some last ∧
      crossedLocksModel.interpreter.fired? second 0 = some last := by
  have accepted : ofProgram crossedLocks = .ok crossedLocksModel := rfl
  have memory : crossedLocksModel.system.fitsMemory = true := by cbv
  obtain ⟨a, analysed, commute⟩ := independent_commute accepted memory
  rw [analysis_eq memory, Except.ok.injEq] at analysed
  subst analysed
  have apart : (Analysis.ofValid crossedLocksModel.system).dependent.get 0 2 = false := by
    decide +kernel
  exact (commute [0, 0, 0, 0] 0 2 rfl ⟨_, rfl, by decide⟩ ⟨_, rfl, by decide⟩ apart).2.2.2
    (by decide) (by decide)

end Model

end StateSpace

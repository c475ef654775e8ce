/-
**The graphs of a program.**

* `Model.Executes` — an interpreter executes a model, and what it tells of the guards is the truth,
  or nothing. So do the model's own one and the one that tells nothing.
* `Model.execute_cases` — all that firing enabled commands can do: it leads to one state for each
  that is not at fault, or, under the strict policy, it fails if one of them is.
* `Model.next_full` — the expansion of a state in the full graph.
* `Model.reducedGraph` — a reduced graph of the model, and `Model.stubbornSet` the sets in it.
-/

import StateSpace.Proofs.Expansion
import StateSpace.Proofs.Program.Conformance
import StateSpace.Proofs.Reduction.Kept
import StateSpace.Proofs.Search.Reachability

namespace StateSpace

open Explorable

namespace Model

variable {m : Model}

/-- The image of a state. -/
def State.image (x : m.State) : Image :=
  .ofBytes x.1

/-- The state in which everything is zero. -/
def State.zero (m : Model) : m.State :=
  ⟨List.replicate m.program.imageSize 0, List.length_replicate⟩

/-- Whether firing a transition is a fault. -/
def State.Faulty (x : m.State) (t : Nat) : Prop :=
  ∃ command, m.program.commands[t]? = some command ∧ command.faulty m.program x.1 = true

instance (x : m.State) (t : Nat) : Decidable (x.Faulty t) :=
  decidable_of_iff _ (Option.any_eq_true (Command.faulty m.program x.1) m.program.commands[t]?)

theorem mem_readyNumbers_iff {x : m.State} {t : Nat} :
    t ∈ m.readyNumbers x.1 ↔ m.semantics.enabled x t :=
  mem_readyNumbers

theorem program_of_ofProgram {p : Program} (accepted : ofProgram p = .ok m) : m.program = p := by
  unfold ofProgram at accepted
  split at accepted
  · cases accepted
  · split at accepted
    · cases accepted
      rfl
    · cases accepted

theorem interpreter_image (x : m.State) : m.interpreter.image x.1 = x.image := by
  have all : x.1.take (Nat.min x.1.length m.program.imageSize) = x.1 := by
    rw [List.take_of_length_le]
    rw [x.2]
    exact Nat.le_of_eq (Nat.min_self _).symm
  exact congrArg Image.ofBytes all

theorem initialImage_eq (inhabited : 0 < m.program.processCount) {state : Image}
    (begins : m.interpreter.initialImage = .ok state) :
    m.interpreter.initialImage = .ok (State.zero m).image := by
  have made : m.interpreter.initial.get = m.initial := rfl
  rw [Interpreter.initialImage, made, initial, if_neg (Nat.pos_iff_ne_zero.mp inhabited)]
    at begins ⊢
  by_cases fits : m.program.imageSize < allocationLimit
  · rw [if_pos fits]
    exact congrArg Except.ok (interpreter_image (State.zero m))
  · rw [if_neg fits] at begins
    cases begins

/-! ### Firing commands -/

theorem reaction_of_enabled {x : m.State} {t : Nat} (enabled : m.semantics.enabled x t)
    (clean : ¬ x.Faulty t) :
    ∃ firing, m.reaction x.1 t = some (.successor (m.semantics.fire x t).1 firing) := by
  obtain ⟨command, used, isReady⟩ := enabled
  have fine : ¬ command.faulty m.program x.1 = true := fun faulty => clean ⟨command, used, faulty⟩
  refine ⟨⟨t, command.process⟩, ?_⟩
  rw [reaction, used, Option.bind_some, if_pos isReady, Command.event, if_neg fine, val_fire used]

theorem reaction_of_faulty {x : m.State} {t : Nat} (enabled : m.semantics.enabled x t)
    (faulty : x.Faulty t) :
    ∃ process pc, m.reaction x.1 t = some (.fault ⟨.assertion, process, pc, some t⟩) := by
  obtain ⟨command, used, isReady⟩ := enabled
  obtain ⟨command', used', isFaulty⟩ := faulty
  rw [used, Option.some.injEq] at used'
  subst used'
  refine ⟨command.process, command.source.toUInt32, ?_⟩
  rw [reaction, used, Option.bind_some, if_pos isReady, Command.event, if_pos isFaulty]

/-- What enabled commands report: the fault of each one that is at fault, and a successor for each
of the others. -/
theorem filterMap_reaction {x : m.State} {ts : List Nat}
    (enabled : ∀ t ∈ ts, m.semantics.enabled x t) :
    (ts.filterMap (m.reaction x.1)).filterMap Event.raw?
        = (ts.filter fun t => ¬ x.Faulty t).map (fun t => (m.semantics.fire x t).1) ∧
      ((ts.filterMap (m.reaction x.1)).filterMap (Event.tolerated? .lenient) = [] ↔
        ∀ t ∈ ts, ¬ x.Faulty t) := by
  induction ts with
  | nil => exact ⟨rfl, by simp⟩
  | cons t rest ih =>
    obtain ⟨raws, faults⟩ := ih fun other member => enabled other (List.mem_cons_of_mem _ member)
    have isEnabled := enabled t List.mem_cons_self
    by_cases faulty : x.Faulty t
    · obtain ⟨process, pc, reacts⟩ := reaction_of_faulty isEnabled faulty
      rw [List.filterMap_cons_some reacts, List.filter_cons_of_neg (by simpa using faulty)]
      refine ⟨raws, ⟨fun none => ?_, fun clean => absurd faulty (clean t List.mem_cons_self)⟩⟩
      simp [Event.tolerated?, Policy.tolerates] at none
    · obtain ⟨firing, leads⟩ := reaction_of_enabled isEnabled faulty
      rw [List.filterMap_cons_some leads, List.filter_cons_of_pos (by simpa using faulty),
        List.map_cons, List.filterMap_cons, List.filterMap_cons, Event.raw?, Event.tolerated?, raws,
        List.forall_mem_cons, ← faults]
      exact ⟨rfl, (and_iff_right faulty).symm⟩

/-- **Firing enabled commands leads to one state for each that is not at fault**, if the policy
tolerates the faults or there are none. -/
theorem exists_execute_of_tolerated {policy : Policy} {x : m.State} {ts : List Nat}
    (enabled : ∀ t ∈ ts, m.semantics.enabled x t)
    (tolerated : policy = .lenient ∨ ∀ t ∈ ts, ¬ x.Faulty t) :
    ∃ expansion, m.interpreter.execute policy x.image ts = .ok expansion ∧
      expansion.states
        = (ts.filter fun t => ¬ x.Faulty t).map (fun t => (m.semantics.fire x t).image) ∧
      (policy = .lenient → (expansion.faults = [] ↔ ∀ t ∈ ts, ¬ x.Faulty t)) := by
  have none : ∀ event ∈ ts.filterMap (m.reaction x.1), event.raised? policy = none := by
    intro event member
    obtain ⟨t, fired, reacts⟩ := List.mem_filterMap.mp member
    by_cases faulty : x.Faulty t
    · obtain ⟨process, pc, raises⟩ := reaction_of_faulty (enabled t fired) faulty
      rw [raises, Option.some.injEq] at reacts
      have isLenient := tolerated.resolve_right fun clean => clean t fired faulty
      rw [← reacts, isLenient]
      rfl
    · obtain ⟨firing, leads⟩ := reaction_of_enabled (enabled t fired) faulty
      rw [leads, Option.some.injEq] at reacts
      rw [← reacts]
      rfl
  obtain ⟨raws, faults⟩ := filterMap_reaction enabled
  refine ⟨_, Interpreter.execute_of_clean (report_eq x.2 ts) none, ?_, ?_⟩
  · rw [Interpreter.expansion, raws, List.map_map]
    exact List.map_congr_left fun t _ => interpreter_image _
  · rintro rfl
    rw [Interpreter.expansion, List.map_eq_nil_iff, faults]

/-- Firing enabled commands leads to one state each, if none of them is at fault. -/
theorem execute_of_clean (policy : Policy) {x : m.State} {ts : List Nat}
    (clean : ∀ t ∈ ts, m.semantics.enabled x t ∧ ¬ x.Faulty t) :
    (m.interpreter.execute policy x.image ts).map Expansion.states
      = .ok (ts.map fun t => (m.semantics.fire x t).image) := by
  have fine : ∀ t ∈ ts, ¬ x.Faulty t := fun t fired => (clean t fired).2
  obtain ⟨expansion, executed, states, _⟩ :=
    exists_execute_of_tolerated (fun t fired => (clean t fired).1)
      (.inr fine : policy = .lenient ∨ _)
  rw [List.filter_eq_self.mpr fun t fired => decide_eq_true (fine t fired)] at states
  rw [executed, ← states]
  rfl

/-- **Under the strict policy** firing a command that is at fault fails. -/
theorem exists_execute_error {x : m.State} {ts : List Nat} {t : Nat} (fired : t ∈ ts)
    (enabled : m.semantics.enabled x t) (faulty : x.Faulty t) :
    ∃ error, m.interpreter.execute .strict x.image ts = .error (.error (.runtime error)) := by
  obtain ⟨process, pc, reacts⟩ := reaction_of_faulty enabled faulty
  have raised : ∃ event ∈ ts.filterMap (m.reaction x.1), event.raised? .strict ≠ none := by
    refine ⟨_, List.mem_filterMap.mpr ⟨t, fired, reacts⟩, ?_⟩
    simp [Event.raised?, Policy.tolerates]
  have reported : m.interpreter.report x.image.bytes ts = _ := report_eq x.2 ts
  obtain ⟨fault, failed⟩ := Interpreter.exists_execute_error reported rfl raised
  exact ⟨_, failed⟩

/-- **An execution that succeeds under the strict policy** fires no command that is at fault. -/
theorem not_faulty_of_execute {x : m.State} {ts : List Nat} {expansion : Expansion}
    (executed : m.interpreter.execute .strict x.image ts = .ok expansion) {t : Nat} (fired : t ∈ ts)
    (enabled : m.semantics.enabled x t) : ¬ x.Faulty t := by
  intro faulty
  obtain ⟨error, failed⟩ := exists_execute_error fired enabled faulty
  rw [executed] at failed
  cases failed

/-- **All that firing enabled commands can do.** Under the strict policy it fails if one of them is
at fault. Else it leads to one state for each that is not. -/
theorem execute_cases (policy : Policy) {x : m.State} {ts : List Nat}
    (enabled : ∀ t ∈ ts, m.semantics.enabled x t) :
    (policy = .strict ∧ (∃ t ∈ ts, x.Faulty t) ∧
      ∃ error, m.interpreter.execute policy x.image ts = .error (.error (.runtime error))) ∨
    (policy = .strict → ∀ t ∈ ts, ¬ x.Faulty t) ∧
      (m.interpreter.execute policy x.image ts).map Expansion.states
        = .ok ((ts.filter fun t => ¬ x.Faulty t).map fun t => (m.semantics.fire x t).image) := by
  by_cases tolerated : policy = .lenient ∨ ∀ t ∈ ts, ¬ x.Faulty t
  · obtain ⟨expansion, executed, states, _⟩ := exists_execute_of_tolerated enabled tolerated
    refine .inr ⟨?_, by rw [executed, ← states]; rfl⟩
    rintro rfl
    exact tolerated.resolve_left (by decide)
  · rw [not_or] at tolerated
    have isStrict : policy = .strict := by
      cases policy with
      | strict => rfl
      | lenient => exact absurd rfl tolerated.1
    obtain ⟨t, fired, faulty⟩ : ∃ t ∈ ts, x.Faulty t := by
      simpa using tolerated.2
    subst isStrict
    exact .inl ⟨rfl, ⟨t, fired, faulty⟩, exists_execute_error fired (enabled t fired) faulty⟩

/-! ### Interpreters of a model -/

/-- **An interpreter that executes a model** and tells the truth about the guards, or nothing. -/
structure Executes (m : Model) (i : Interpreter) : Prop where
  system : i.system = m.system
  initialImage : i.initialImage = m.interpreter.initialImage
  enabled : i.enabled = m.interpreter.enabled
  execute : i.execute = m.interpreter.execute
  accepting : ∀ bytes, i.accepting bytes = false
  guardHolds : ∀ (x : m.State) (g : Nat), i.guardHolds x.1 g = .ok none ∨
    i.guardHolds x.1 g = .ok (some (m.semantics.holds x g))

theorem executes_interpreter (m : Model) : m.Executes m.interpreter where
  system := rfl
  initialImage := rfl
  enabled := rfl
  execute := rfl
  accepting _ := rfl
  guardHolds x g := by
    rw [guardHolds_eq x.2]
    cases found : m.program.conditions[g]? with
    | none => exact .inl rfl
    | some condition =>
      rw [holds_of_getElem? found]
      exact .inr rfl

theorem executes_bare (m : Model) : m.Executes m.interpreter.bare where
  system := rfl
  initialImage := rfl
  enabled := rfl
  execute := rfl
  accepting _ := rfl
  guardHolds _ _ := .inl rfl

theorem executes_of_either {m : Model} {i : Interpreter}
    (either : i = m.interpreter ∨ i = m.interpreter.bare) : m.Executes i := by
  rcases either with rfl | rfl
  · exact m.executes_interpreter
  · exact m.executes_bare

/-- What an interpreter tells of the guards. -/
def oracleOf (i : Interpreter) (bytes : List UInt8) : Oracle := fun guard =>
  match i.guardHolds bytes guard with
  | .ok answer => answer
  | .error _ => none

variable {i : Interpreter}

theorem Executes.truthful (executes : m.Executes i) (x : m.State) :
    m.semantics.Truthful x (oracleOf i x.1) := by
  intro g
  unfold oracleOf
  rcases executes.guardHolds x g with silent | tells
  · rw [silent]
    exact .inl rfl
  · rw [tells]
    exact .inr rfl

theorem Executes.enabled_eq (executes : m.Executes i) (x : m.State) :
    i.enabled x.image.bytes = .ok (m.readyNumbers x.1) := by
  rw [executes.enabled]
  exact Model.enabled_eq x.2

/-! ### The full graph -/

/-- **In the full graph all enabled commands fire.** -/
theorem next_full (executes : m.Executes i) (policy : Policy) (x : m.State) :
    next (Interpreted.full i policy) x.image
      = (m.interpreter.execute policy x.image (m.readyNumbers x.1)).map Expansion.states := by
  rw [Interpreted.next_full policy (executes.enabled_eq x), executes.execute]

/-! ### Reduced graphs -/

/-- The reduced graph with certain statistics. -/
def reducedGraph (m : Model) (i : Interpreter) (policy : Policy) (options : Options)
    (stats : Stats) : Interpreted :=
  ⟨i, policy, some { Reducer.ofAnalysis (Analysis.ofValid m.system) options with stats := stats }⟩

/-- The members of the stubborn set of a state. -/
def stubbornSet (m : Model) (i : Interpreter) (options : Options) (x : m.State) : Members :=
  (Reducer.ofAnalysis (Analysis.ofValid m.system) options).stubbornMembers (m.readyNumbers x.1)
    (oracleOf i x.1) (Reducer.seedOf (m.readyNumbers x.1))

/-- The flags of the enabled commands in a state. -/
def flagsOf (m : Model) (i : Interpreter) (options : Options) (x : m.State) : List Bool :=
  (Reducer.ofAnalysis (Analysis.ofValid m.system) options).flags (m.readyNumbers x.1)
    (oracleOf i x.1)

theorem reduced_eq (executes : m.Executes i) (memory : m.system.fitsMemory = true) (policy : Policy)
    (options : Options) :
    Interpreted.reduced i policy options = .ok (m.reducedGraph i policy options .initial) := by
  have analysed : Analysis.ofSystem m.system = .ok (Analysis.ofValid m.system) :=
    Analysis.ofSystem_eq_ok_iff.mpr ⟨memory, Program.system_wellFormed m.inOrder, rfl⟩
  unfold Interpreted.reduced Reducer.ofSystem
  rw [executes.system, analysed]
  rfl

end Model

end StateSpace

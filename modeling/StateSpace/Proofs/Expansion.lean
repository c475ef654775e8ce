/-
**When an execution succeeds, and what it gives.**

An interpreter that reports without breaking off is read up to the first fault that is not
tolerated.

* `Interpreter.execute_of_clean` — without such a fault all events are delivered, and the expansion
  is what they amount to.
* `Interpreter.exists_execute_error` — with one the execution fails, if the interpreter stops when
  it is asked to.
* `Interpreter.expansion_filter` — leaving out the events of some transitions leaves out their part
  of the expansion, `Expansion.only`.
* `Interpreter.length_expansion` — each event that is not raised is a state or a tolerated fault,
  and under the strict policy it is a state (`Interpreter.faults_of_execute_strict`).
-/

import StateSpace.Expansion

namespace StateSpace

namespace Interpreter

/-- A reader who never asks to stop gets everything. -/
theorem cutAfter_map_ok {stop : Event → Bool} {events : List Event}
    (goesOn : ∀ event ∈ events, stop event = false) :
    cutAfter stop (events.map .ok) = .ok events := by
  induction events with
  | nil => rfl
  | cons event rest ih =>
    rw [List.map_cons, cutAfter, goesOn event List.mem_cons_self, if_neg Bool.false_ne_true,
      ih fun other member => goesOn other (List.mem_cons_of_mem _ member)]
    rfl

/-- A reader who asks to stop gets the event at which that happens as the last one. -/
theorem exists_cutAfter_map_ok {stop : Event → Bool} {events : List Event}
    (stops : ∃ event ∈ events, stop event = true) :
    ∃ before event, cutAfter stop (events.map .ok) = .ok (before ++ [event]) ∧
      stop event = true := by
  induction events with
  | nil => simp at stops
  | cons first rest ih =>
    rw [List.map_cons, cutAfter]
    by_cases here : stop first = true
    · rw [if_pos here]
      exact ⟨[], first, rfl, here⟩
    · rw [if_neg here]
      obtain ⟨event, member, asked⟩ := stops
      have later : ∃ event ∈ rest, stop event = true := by
        rcases List.mem_cons.mp member with rfl | inside
        · exact absurd asked here
        · exact ⟨event, inside, asked⟩
      obtain ⟨before, event, cut, asked⟩ := ih later
      refine ⟨first :: before, event, ?_, asked⟩
      rw [cut]
      rfl

variable {i : Interpreter} {policy : Policy} {state : Image} {transitions : List Nat}
  {events : List Event}

/-- What an execution makes of the events that are delivered. -/
theorem execute_of_delivered
    (delivers : i.delivered (fun event => (event.raised? policy).isSome) state.bytes transitions
      = .ok events) :
    i.execute policy state transitions =
      match (events.filterMap (Event.raised? policy)).getLast? with
      | some fault => .error (.error (.runtime (i.runtimeError fault)))
      | none => .ok (i.expansion policy events) := by
  cases last : (events.filterMap (Event.raised? policy)).getLast? with
  | none => simp only [execute, delivers, orAbort, bind, Except.bind, last]
  | some fault => simp only [execute, delivers, orAbort, bind, Except.bind, last]

/-- **Without a fault that is not tolerated an execution succeeds.** -/
theorem execute_of_clean (reported : i.report state.bytes transitions = events.map .ok)
    (clean : ∀ event ∈ events, event.raised? policy = none) :
    i.execute policy state transitions = .ok (i.expansion policy events) := by
  have goesOn : ∀ event ∈ events, (!i.ignoresStop && (event.raised? policy).isSome) = false := by
    intro event member
    rw [clean event member, Option.isSome_none, Bool.and_false]
  have delivers : i.delivered (fun event => (event.raised? policy).isSome) state.bytes transitions
      = .ok events := by
    rw [delivered, reported, cutAfter_map_ok goesOn]
  rw [execute_of_delivered delivers, List.filterMap_eq_nil_iff.mpr clean]
  rfl

/-- **With such a fault it fails**, and the fault is the error. -/
theorem exists_execute_error (reported : i.report state.bytes transitions = events.map .ok)
    (obeys : i.ignoresStop = false) (raised : ∃ event ∈ events, event.raised? policy ≠ none) :
    ∃ fault, i.execute policy state transitions
      = .error (.error (.runtime (i.runtimeError fault))) := by
  have stops : ∃ event ∈ events, (!i.ignoresStop && (event.raised? policy).isSome) = true := by
    obtain ⟨event, member, raises⟩ := raised
    exact ⟨event, member, by simp [obeys, Option.isSome_iff_ne_none, raises]⟩
  obtain ⟨before, event, cut, asked⟩ := exists_cutAfter_map_ok stops
  have delivers : i.delivered (fun event => (event.raised? policy).isSome) state.bytes transitions
      = .ok (before ++ [event]) := by
    rw [delivered, reported, cut]
  rw [obeys, Bool.not_false, Bool.true_and] at asked
  obtain ⟨fault, last⟩ := Option.isSome_iff_exists.mp asked
  have found : ((before ++ [event]).filterMap (Event.raised? policy)).getLast? = some fault := by
    rw [List.filterMap_append, List.filterMap_cons_some last]
    exact List.getLast?_concat
  refine ⟨fault, ?_⟩
  rw [execute_of_delivered delivers, found]

end Interpreter

/-! ### Parts of an expansion -/

/-- The transition behind an event. -/
def Event.transition? : Event → Option Nat
  | .successor _ firing => some firing.transition
  | .fault raised => raised.transition

/-- **The part of an expansion that comes from some transitions.** -/
def Expansion.only (keeps : Nat → Bool) (expansion : Expansion) : Expansion :=
  let entries := (expansion.states.zip expansion.firings).filter fun entry =>
    keeps entry.2.transition
  { states := entries.map Prod.fst
    firings := entries.map Prod.snd
    faults := expansion.faults.filter fun error => error.fault.transition.any keeps }

namespace Interpreter

variable {i : Interpreter} {state : Image} {transitions : List Nat}

/-- The state that an event leads to, and what fired to reach it. -/
def arrival? (i : Interpreter) : Event → Option (Image × Firing)
  | .successor raw firing => some (i.image raw, firing)
  | .fault _ => none

/-- **An expansion event by event.** -/
theorem expansion_eq (i : Interpreter) (policy : Policy) (events : List Event) :
    i.expansion policy events =
      { states := (events.filterMap i.arrival?).map Prod.fst
        firings := (events.filterMap i.arrival?).map Prod.snd
        faults := events.filterMap fun event => (event.tolerated? policy).map i.runtimeError } := by
  have states : (fun event => (i.arrival? event).map Prod.fst)
      = fun event => (Event.raw? event).map i.image := by
    funext event
    cases event <;> rfl
  have firings : (fun event => (i.arrival? event).map Prod.snd) = Event.firing? := by
    funext event
    cases event <;> rfl
  unfold expansion
  rw [List.map_filterMap, List.map_filterMap, List.map_filterMap, List.map_filterMap, states,
    firings]

/-- **Leaving out events leaves out their part of the expansion.** -/
theorem expansion_filter (i : Interpreter) (policy : Policy) (keeps : Nat → Bool)
    (events : List Event) :
    i.expansion policy (events.filter fun event => event.transition?.any keeps)
      = (i.expansion policy events).only keeps := by
  have entries : (fun event : Event =>
      if event.transition?.any keeps then i.arrival? event else none)
        = fun event => (i.arrival? event).filter fun entry => keeps entry.2.transition := by
    funext event
    cases event with
    | successor raw firing => rfl
    | fault raised => simp [arrival?]
  have faults : (fun event : Event => if event.transition?.any keeps then
      (event.tolerated? policy).map i.runtimeError else none)
        = fun event => ((event.tolerated? policy).map i.runtimeError).filter fun error =>
            error.fault.transition.any keeps := by
    funext event
    cases event with
    | successor raw firing => simp [Event.tolerated?]
    | fault raised =>
      by_cases tolerated : policy.tolerates raised.code = true
      · simp [Event.tolerated?, Event.transition?, tolerated, runtimeError, Option.filter]
      · simp [Event.tolerated?, tolerated]
  simp only [expansion_eq, Expansion.only, List.zip_map', List.map_id',
    List.filterMap_filter, List.filter_filterMap, entries, faults]

/-- Fewer events give fewer entries, in their order. -/
theorem expansion_sublist (i : Interpreter) (policy : Policy) {few events : List Event}
    (sublist : few.Sublist events) :
    (i.expansion policy few).states.Sublist (i.expansion policy events).states ∧
      (i.expansion policy few).firings.Sublist (i.expansion policy events).firings ∧
      (i.expansion policy few).faults.Sublist (i.expansion policy events).faults :=
  ⟨(sublist.filterMap _).map _, sublist.filterMap _, (sublist.filterMap _).map _⟩

/-- **Each event leads to a state or is a fault that is tolerated**, if none is raised. -/
theorem length_expansion (i : Interpreter) {policy : Policy} {events : List Event}
    (clean : ∀ event ∈ events, event.raised? policy = none) :
    events.length
      = (i.expansion policy events).states.length + (i.expansion policy events).faults.length := by
  simp only [expansion, List.length_map]
  induction events with
  | nil => rfl
  | cons event rest ih =>
    have later := ih fun other member => clean other (List.mem_cons_of_mem _ member)
    have first := clean event List.mem_cons_self
    cases event with
    | successor raw firing =>
      simp only [List.filterMap_cons, Event.raw?, Event.tolerated?, List.length_cons]
      omega
    | fault raised =>
      by_cases tolerated : policy.tolerates raised.code = true
      · simp only [List.filterMap_cons, Event.raw?, Event.tolerated?, tolerated, if_true,
          List.length_cons]
        omega
      · simp [Event.raised?, tolerated] at first

/-- **Nothing is tolerated under the strict policy.** -/
theorem faults_of_execute_strict {expansion : Expansion}
    (executed : i.execute .strict state transitions = .ok expansion) : expansion.faults = [] := by
  cases delivers : i.delivered (fun event => (event.raised? .strict).isSome) state.bytes
      transitions with
  | error abort =>
    simp only [execute, delivers, orAbort, bind, Except.bind] at executed
    cases executed
  | ok events =>
    rw [execute_of_delivered delivers] at executed
    split at executed
    · cases executed
    · cases executed
      rw [Interpreter.expansion, List.map_eq_nil_iff, List.filterMap_eq_nil_iff]
      intro event _
      cases event with
      | successor raw firing => rfl
      | fault raised => simp [Event.tolerated?, Policy.tolerates]

end Interpreter

end StateSpace

/-
**Collecting what an execution reports.**

An interpreter hands its events to a reader, one after the other, and the reader's answer to each
says whether it shall go on.

* `Collector` — the reader behind an expansion: what it has collected so far, and the fault it has
  raised last. `Collector.receive` is its answer to one event.
* `Interpreter.collect` — an execution as such a conversation. `Interpreter.collect_eq` says that it
  is `Interpreter.execute`: after every event the collector holds what the events so far amount to
  (`Collector.Holds`).
* `Event.Fatal` — the faults that are answered with a stop: any fault under the strict policy, and
  any but those of assertions under the lenient one.
* `Interpreter.execute_exact` — an execution fails if a fatal fault is delivered, and otherwise it
  gives what was reported, event by event.
-/

import Mathlib.Data.List.Basic
import StateSpace.Interpreter.Table
import StateSpace.Proofs.Expansion

namespace StateSpace

/-! ### The conversation -/

/-- What a reader answers to an event. -/
inductive Answer where
  | goOn
  | stop
deriving DecidableEq

/-- **A reader that collects an expansion.** -/
structure Collector where
  expansion : Expansion
  /-- The fault that was raised last. -/
  raised : Option RuntimeError

namespace Collector

/-- Nothing was reported yet. -/
def empty : Collector :=
  ⟨⟨[], [], []⟩, none⟩

/-- **Takes one event.** A successor is cut to its size, or to what there is of it; a fault that is
not tolerated is raised, and the execution shall stop. -/
def receive (i : Interpreter) (policy : Policy) (c : Collector) : Event → Collector × Answer
  | .successor raw firing =>
    let size := Nat.min (i.stateSize raw) raw.length
    let expansion := { c.expansion with
      states := c.expansion.states ++ [.ofBytes (raw.take size)]
      firings := c.expansion.firings ++ [firing] }
    ({ c with expansion := expansion }, .goOn)
  | .fault raised =>
    let error : RuntimeError := ⟨raised, i.account raised⟩
    if policy.tolerates raised.code then
      let expansion := { c.expansion with faults := c.expansion.faults ++ [error] }
      ({ c with expansion := expansion }, .goOn)
    else ({ c with raised := some error }, .stop)

end Collector

namespace Interpreter

/-- Hands a report to a collector, until that asks to stop and the interpreter does so. -/
def feed (i : Interpreter) (policy : Policy) (c : Collector) :
    List (Except Abort Event) → Except Abort Collector
  | [] => .ok c
  | .error cause :: _ => .error cause
  | .ok event :: rest =>
    let answered := c.receive i policy event
    if answered.2 = .stop ∧ i.ignoresStop = false then .ok answered.1
    else i.feed policy answered.1 rest

/-- **Expands a state by firing some transitions**, as a conversation with a collector. What was
collected is dropped if a fault was raised. -/
def collect (i : Interpreter) (policy : Policy) (state : Image) (transitions : List Nat) :
    Except Failure Expansion := do
  let c ← orAbort (i.feed policy .empty (i.report state.bytes transitions))
  match c.raised with
  | some error => .error (.error (.runtime error))
  | none => .ok c.expansion

end Interpreter

/-! ### What a collector holds -/

namespace Collector

variable {i : Interpreter} {policy : Policy} {c : Collector}

/-- **A collector holds some events**: it has collected the expansion that they amount to, and the
last fault among them that is not tolerated. -/
structure Holds (i : Interpreter) (policy : Policy) (events : List Event) (c : Collector) :
    Prop where
  expansion_eq : c.expansion = i.expansion policy events
  raised_eq : c.raised
    = ((events.filterMap (Event.raised? policy)).getLast?).map i.runtimeError

theorem holds_empty (i : Interpreter) (policy : Policy) : empty.Holds i policy [] :=
  ⟨rfl, rfl⟩

/-- A state that is cut to its size, or to what there is of it. -/
theorem ofBytes_take_min (i : Interpreter) (raw : List UInt8) :
    Image.ofBytes (raw.take (Nat.min (i.stateSize raw) raw.length)) = i.image raw := by
  rw [Interpreter.image, ← List.take_eq_take_min]

/-- **One more event.** -/
theorem Holds.receive {events : List Event} (holds : c.Holds i policy events) (event : Event) :
    (c.receive i policy event).1.Holds i policy (events ++ [event]) := by
  obtain ⟨collected, raised⟩ := holds
  cases event with
  | successor raw firing =>
    constructor
    · simp [Collector.receive, collected, Interpreter.expansion, Event.raw?, Event.firing?,
        Event.tolerated?, ofBytes_take_min]
    · simp [Collector.receive, raised, Event.raised?]
  | fault fault =>
    by_cases tolerated : policy.tolerates fault.code = true
    · constructor
      · simp [Collector.receive, tolerated, collected, Interpreter.expansion, Event.raw?,
          Event.firing?, Event.tolerated?, Interpreter.runtimeError]
      · simp [Collector.receive, tolerated, raised, Event.raised?]
    · constructor
      · simp [Collector.receive, tolerated, collected, Interpreter.expansion, Event.raw?,
          Event.firing?, Event.tolerated?]
      · simp [Collector.receive, tolerated, Event.raised?, Interpreter.runtimeError]

/-- A collector asks to stop at a fault that is not tolerated. -/
theorem receive_stop_iff (event : Event) :
    (c.receive i policy event).2 = .stop ↔ (event.raised? policy).isSome = true := by
  cases event with
  | successor raw firing => simp [receive, Event.raised?]
  | fault fault =>
    by_cases tolerated : policy.tolerates fault.code = true
    · simp [receive, Event.raised?, tolerated]
    · simp [receive, Event.raised?, tolerated]

end Collector

namespace Interpreter

variable {i : Interpreter} {policy : Policy} {c : Collector}

/-- **A whole report**: the collector holds the events that are delivered. -/
theorem feed_spec {done : List Event} (holds : c.Holds i policy done)
    (report : List (Except Abort Event)) :
    match cutAfter (fun event => !i.ignoresStop && (event.raised? policy).isSome) report with
    | .ok events => ∃ c', i.feed policy c report = .ok c' ∧ c'.Holds i policy (done ++ events)
    | .error cause => i.feed policy c report = .error cause := by
  -- by induction on what is left of the report, for any events that were delivered before
  induction report generalizing c done with
  | nil => exact ⟨c, rfl, by rwa [List.append_nil]⟩
  | cons first rest ih =>
    cases first with
    | error cause => rfl
    | ok event =>
      have received := holds.receive event
      have asked : (c.receive i policy event).2 = .stop ∧ i.ignoresStop = false ↔
          (!i.ignoresStop && (event.raised? policy).isSome) = true := by
        rw [Collector.receive_stop_iff, Bool.and_eq_true, Bool.not_eq_true', and_comm]
      unfold feed cutAfter
      by_cases stops : (!i.ignoresStop && (event.raised? policy).isSome) = true
      · rw [if_pos stops, if_pos (asked.mpr stops)]
        exact ⟨_, rfl, received⟩
      · rw [if_neg stops, if_neg (mt asked.mp stops)]
        have later := ih received
        cases cut : cutAfter (fun event => !i.ignoresStop && (event.raised? policy).isSome)
          rest with
        | error cause =>
          rw [cut] at later
          exact later
        | ok events =>
          rw [cut] at later
          obtain ⟨c', fed, holds'⟩ := later
          exact ⟨c', fed, by rwa [List.append_assoc] at holds'⟩

/-- **The conversation gives what an execution gives.** -/
theorem collect_eq (i : Interpreter) (policy : Policy) (state : Image) (transitions : List Nat) :
    i.collect policy state transitions = i.execute policy state transitions := by
  have fed := feed_spec (Collector.holds_empty i policy)
    (i.report state.bytes transitions)
  cases cut : i.delivered (fun event => (event.raised? policy).isSome) state.bytes transitions with
  | error cause =>
    rw [delivered] at cut
    rw [cut] at fed
    simp only [collect, execute, delivered, fed, cut, orAbort, bind, Except.bind]
  | ok events =>
    rw [execute_of_delivered cut]
    rw [delivered] at cut
    rw [cut] at fed
    obtain ⟨c, collected, holds⟩ := fed
    rw [List.nil_append] at holds
    simp only [collect, collected, orAbort, bind, Except.bind, holds.raised_eq, holds.expansion_eq]
    cases (events.filterMap (Event.raised? policy)).getLast? with
    | none => rfl
    | some fault => rfl

end Interpreter

/-! ### Fatal faults -/

namespace Event

/-- **An event that is answered with a stop**: any fault under the strict policy, and any but that
of an assertion under the lenient one. -/
def Fatal (policy : Policy) : Event → Prop
  | .successor _ _ => False
  | .fault raised => policy = .strict ∨ raised.code ≠ .assertion

instance (policy : Policy) : DecidablePred (Fatal policy)
  | .successor _ _ => inferInstanceAs (Decidable False)
  | .fault raised => inferInstanceAs (Decidable (policy = .strict ∨ raised.code ≠ .assertion))

/-- The fault of an event. -/
def fault? : Event → Option Fault
  | .successor _ _ => none
  | .fault raised => some raised

variable {policy : Policy} {event : Event}

theorem tolerates_iff_not_fatal {raised : Fault} :
    policy.tolerates raised.code = true ↔ ¬ (Event.fault raised).Fatal policy := by
  cases policy <;> simp [Policy.tolerates, Fatal]

theorem raised?_eq (policy : Policy) (event : Event) :
    event.raised? policy = if event.Fatal policy then event.fault? else none := by
  cases event with
  | successor raw firing => rfl
  | fault raised =>
    by_cases fatal : (Event.fault raised).Fatal policy
    · have raises : ¬ policy.tolerates raised.code = true := fun tolerated =>
        tolerates_iff_not_fatal.mp tolerated fatal
      rw [if_pos fatal, raised?, if_neg raises]
      rfl
    · rw [if_neg fatal, raised?, if_pos (tolerates_iff_not_fatal.mpr fatal)]

theorem raised?_of_not_fatal (harmless : ¬ event.Fatal policy) : event.raised? policy = none := by
  rw [raised?_eq, if_neg harmless]

theorem raised?_of_fatal {raised : Fault} (fatal : (Event.fault raised).Fatal policy) :
    (Event.fault raised).raised? policy = some raised := by
  rw [raised?_eq, if_pos fatal]
  rfl

theorem isSome_raised?_iff : (event.raised? policy).isSome = true ↔ event.Fatal policy := by
  cases event with
  | successor raw firing => simp [raised?, Fatal]
  | fault raised =>
    rw [raised?_eq]
    by_cases fatal : (Event.fault raised).Fatal policy <;> simp [fatal, fault?]

/-- Of an event that is not fatal the fault, if there is one, is tolerated. -/
theorem tolerated?_of_not_fatal (harmless : ¬ event.Fatal policy) :
    event.tolerated? policy = event.fault? := by
  cases event with
  | successor raw firing => rfl
  | fault raised => exact if_pos (tolerates_iff_not_fatal.mpr harmless)

end Event

namespace Interpreter

variable {i : Interpreter} {policy : Policy} {state : Image} {transitions : List Nat}
  {events before after : List Event}

/-- **The events that reach a collector**: all up to and including the first fatal one, and all if
the interpreter ignores that it shall stop. -/
def handed (i : Interpreter) (policy : Policy) : List Event → List Event
  | [] => []
  | event :: rest =>
    if event.Fatal policy ∧ i.ignoresStop = false then [event]
    else event :: i.handed policy rest

theorem cutAfter_eq_handed (events : List Event) :
    cutAfter (fun event => !i.ignoresStop && (event.raised? policy).isSome) (events.map .ok)
      = .ok (i.handed policy events) := by
  induction events with
  | nil => rfl
  | cons event rest ih =>
    have asked : (!i.ignoresStop && (event.raised? policy).isSome) = true ↔
        event.Fatal policy ∧ i.ignoresStop = false := by
      rw [Bool.and_eq_true, Bool.not_eq_true', Event.isSome_raised?_iff, and_comm]
    rw [List.map_cons, cutAfter, ih, handed]
    by_cases stops : event.Fatal policy ∧ i.ignoresStop = false
    · rw [if_pos stops, if_pos (asked.mpr stops)]
    · rw [if_neg stops, if_neg (mt asked.mp stops)]
      rfl

/-- Nothing is cut off where nothing fatal is delivered. -/
theorem handed_eq_self (harmless : ∀ event ∈ i.handed policy events, ¬ event.Fatal policy) :
    i.handed policy events = events := by
  induction events with
  | nil => rfl
  | cons event rest ih =>
    rw [handed] at harmless ⊢
    by_cases stops : event.Fatal policy ∧ i.ignoresStop = false
    · rw [if_pos stops] at harmless
      exact absurd stops.1 (harmless event List.mem_cons_self)
    · rw [if_neg stops] at harmless ⊢
      rw [ih fun other member => harmless other (List.mem_cons_of_mem _ member)]

theorem handed_of_ignores (ignores : i.ignoresStop = true) (events : List Event) :
    i.handed policy events = events := by
  induction events with
  | nil => rfl
  | cons event rest ih =>
    rw [handed, if_neg (by simp [ignores]), ih]

/-- The first fatal event is the last one that is delivered. -/
theorem handed_append {event : Event} (obeys : i.ignoresStop = false)
    (harmless : ∀ event ∈ before, ¬ event.Fatal policy) (fatal : event.Fatal policy) :
    i.handed policy (before ++ event :: after) = before ++ [event] := by
  induction before with
  | nil => rw [List.nil_append, handed, if_pos ⟨fatal, obeys⟩, List.nil_append]
  | cons first rest ih =>
    have goesOn : ¬ (first.Fatal policy ∧ i.ignoresStop = false) := fun stops =>
      harmless first List.mem_cons_self stops.1
    rw [List.cons_append, handed, if_neg goesOn,
      ih fun other member => harmless other (List.mem_cons_of_mem _ member), List.cons_append]

/-- What an execution makes of the events that are delivered. -/
theorem execute_of_handed (reported : i.report state.bytes transitions = events.map .ok) :
    i.execute policy state transitions =
      match ((i.handed policy events).filterMap (Event.raised? policy)).getLast? with
      | some fault => .error (.error (.runtime (i.runtimeError fault)))
      | none => .ok (i.expansion policy (i.handed policy events)) := by
  refine execute_of_delivered ?_
  rw [delivered, reported, cutAfter_eq_handed]

/-- **The last fatal fault that is delivered is the error.** -/
theorem execute_of_last {fault : Fault}
    (reported : i.report state.bytes transitions = events.map .ok)
    (delivers : i.handed policy events = before ++ .fault fault :: after)
    (fatal : (Event.fault fault).Fatal policy)
    (harmless : ∀ event ∈ after, ¬ event.Fatal policy) :
    i.execute policy state transitions
      = .error (.error (.runtime ⟨fault, i.account fault⟩)) := by
  have none : after.filterMap (Event.raised? policy) = [] :=
    List.filterMap_eq_nil_iff.mpr fun event member =>
      Event.raised?_of_not_fatal (harmless event member)
  have last : ((i.handed policy events).filterMap (Event.raised? policy)).getLast?
      = some fault := by
    rw [delivers, List.filterMap_append, List.filterMap_cons_some (Event.raised?_of_fatal fatal),
      none]
    exact List.getLast?_concat
  rw [execute_of_handed reported, last]
  rfl

/-- **An expansion is what some events report**: the states in the order of their report, each cut
to its size, the firing behind each, and the faults, which are all of assertions. -/
structure Collects (i : Interpreter) (events : List Event) (expansion : Expansion) : Prop where
  states_eq : expansion.states = (events.filterMap Event.raw?).map fun raw =>
    .ofBytes (raw.take (Nat.min (i.stateSize raw) raw.length))
  firings_eq : expansion.firings = events.filterMap Event.firing?
  zip_eq : expansion.states.zip expansion.firings = events.filterMap i.arrival?
  length_eq : expansion.states.length = expansion.firings.length
  faults_eq : expansion.faults = (events.filterMap Event.fault?).map fun fault =>
    ⟨fault, i.account fault⟩
  assertions : ∀ error ∈ expansion.faults, error.fault.code = .assertion

theorem collects_expansion (harmless : ∀ event ∈ events, ¬ event.Fatal policy) :
    i.Collects events (i.expansion policy events) := by
  have arrivals := i.expansion_eq policy events
  have faults : events.filterMap (Event.tolerated? policy) = events.filterMap Event.fault? :=
    List.filterMap_congr fun event member => Event.tolerated?_of_not_fatal (harmless event member)
  refine ⟨?_, rfl, ?_, ?_, ?_, ?_⟩
  · simp only [expansion, Collector.ofBytes_take_min]
  · rw [arrivals]
    simp only [List.zip_map', List.map_id']
  · rw [arrivals]
    simp only [List.length_map]
  · rw [expansion, faults]
    rfl
  · intro error member
    rw [expansion, faults] at member
    obtain ⟨fault, reported, rfl⟩ := List.mem_map.mp member
    obtain ⟨event, known, same⟩ := List.mem_filterMap.mp reported
    cases event with
    | successor raw firing => cases same
    | fault raised =>
      obtain rfl := Option.some.inj same
      exact Classical.byContradiction fun other => harmless _ known (.inr other)

/-- **An execution collects exactly what is reported.** Take an interpreter that reports some events
when it fires transitions from a state. The execution fails with a runtime error if and only if a
fatal fault is delivered; if the interpreter stops when it is asked to, the error is the first fatal
fault with the interpreter's account of it, and otherwise the last one. If none is delivered, all
events are, and the execution gives what they report. As a conversation with a collector it ends in
the same way. -/
theorem execute_exact (i : Interpreter) (policy : Policy) (state : Image) (transitions : List Nat)
    (events : List Event) (reported : i.report state.bytes transitions = events.map .ok) :
    i.collect policy state transitions = i.execute policy state transitions ∧
    ((∃ error, i.execute policy state transitions = .error (.error (.runtime error))) ↔
      ∃ event ∈ i.handed policy events, event.Fatal policy) ∧
    (∀ before fault after, events = before ++ .fault fault :: after →
      (Event.fault fault).Fatal policy →
      (if i.ignoresStop then ∀ event ∈ after, ¬ event.Fatal policy
        else ∀ event ∈ before, ¬ event.Fatal policy) →
      i.execute policy state transitions
        = .error (.error (.runtime ⟨fault, i.account fault⟩))) ∧
    ((∀ event ∈ i.handed policy events, ¬ event.Fatal policy) →
      ∃ expansion, i.execute policy state transitions = .ok expansion ∧
        i.Collects events expansion) := by
  have succeeds : (∀ event ∈ i.handed policy events, ¬ event.Fatal policy) →
      i.execute policy state transitions = .ok (i.expansion policy events) ∧
        i.Collects events (i.expansion policy events) := by
    intro harmless
    have all := handed_eq_self harmless
    rw [all] at harmless
    refine ⟨execute_of_clean reported fun event member => ?_, collects_expansion harmless⟩
    exact Event.raised?_of_not_fatal (harmless event member)
  refine ⟨collect_eq i policy state transitions, ⟨?_, ?_⟩, ?_, ?_⟩
  · intro fails
    obtain ⟨error, failed⟩ := fails
    by_contra none
    have harmless : ∀ event ∈ i.handed policy events, ¬ event.Fatal policy :=
      fun event member fatal => none ⟨event, member, fatal⟩
    rw [(succeeds harmless).1] at failed
    cases failed
  · intro delivers
    have raises : (i.handed policy events).filterMap (Event.raised? policy) ≠ [] := by
      obtain ⟨event, member, fatal⟩ := delivers
      intro none
      have raised := List.filterMap_eq_nil_iff.mp none event member
      have some := Event.isSome_raised?_iff.mpr fatal
      rw [raised] at some
      cases some
    obtain ⟨fault, last⟩ := Option.isSome_iff_exists.mp (List.getLast?_isSome.mpr raises)
    refine ⟨i.runtimeError fault, ?_⟩
    rw [execute_of_handed reported, last]
  · intro before fault after split fatal harmless
    by_cases ignores : i.ignoresStop = true
    · rw [if_pos ignores] at harmless
      have all : i.handed policy events = before ++ .fault fault :: after := by
        rw [handed_of_ignores ignores, split]
      exact execute_of_last reported all fatal harmless
    · rw [if_neg ignores] at harmless
      have cut : i.handed policy events = before ++ .fault fault :: [] := by
        rw [split, handed_append (Bool.eq_false_iff.mpr ignores) harmless fatal]
      exact execute_of_last reported cut fatal fun _ none => absurd none List.not_mem_nil
  · intro harmless
    exact ⟨_, succeeds harmless⟩

end Interpreter

/-! ### Mixed reports -/

/-- States of two bytes. From one of them a transition reports more bytes than that and another one
fewer, and two transitions report faults. -/
def mixedReports : Table where
  system := ⟨0, 0, #[], #[], []⟩
  initial := none
  stateSize := some 2
  ignoresStop := false
  entries := [⟨[0], [], [],
    [⟨0, .successor [1, 2, 3] ⟨0, 0⟩⟩, ⟨1, .fault ⟨.assertion, 0, 4, some 1⟩⟩,
      ⟨2, .successor [7] ⟨2, 1⟩⟩, ⟨3, .fault ⟨.divisionByZero, 0, 5, none⟩⟩], false⟩]

/-- A violated assertion is tolerated between successors, one of which is reported twice. Under the
strict policy it ends the execution; an interpreter that ignores this goes on to the next fault. -/
theorem Interpreter.execute_exact_mixedReports :
    (∃ expansion, mixedReports.interpreter.execute .lenient (.ofBytes [0]) [0, 1, 2, 0]
        = .ok expansion ∧
      expansion.states = [.ofBytes [1, 2], .ofBytes [7], .ofBytes [1, 2]] ∧
      expansion.firings = [⟨0, 0⟩, ⟨2, 1⟩, ⟨0, 0⟩] ∧
      expansion.faults = [⟨⟨.assertion, 0, 4, some 1⟩, "fault 9 in transition 1"⟩]) ∧
    mixedReports.interpreter.execute .strict (.ofBytes [0]) [0, 1, 3]
      = .error (.error (.runtime ⟨⟨.assertion, 0, 4, some 1⟩, "fault 9 in transition 1"⟩)) ∧
    ({ mixedReports with ignoresStop := true } : Table).interpreter.execute .strict
        (.ofBytes [0]) [0, 1, 3]
      = .error (.error (.runtime ⟨⟨.divisionByZero, 0, 5, none⟩, "fault 4"⟩)) := by
  have reported : mixedReports.interpreter.report [0] [0, 1, 2, 0]
      = [.successor [1, 2, 3] ⟨0, 0⟩, .fault ⟨.assertion, 0, 4, some 1⟩, .successor [7] ⟨2, 1⟩,
          .successor [1, 2, 3] ⟨0, 0⟩].map .ok := rfl
  have faulty : mixedReports.interpreter.report [0] [0, 1, 3]
      = [.successor [1, 2, 3] ⟨0, 0⟩, .fault ⟨.assertion, 0, 4, some 1⟩,
          .fault ⟨.divisionByZero, 0, 5, none⟩].map .ok := rfl
  obtain ⟨_, _, _, succeeds⟩ := execute_exact _ .lenient (.ofBytes [0]) _ _ reported
  obtain ⟨expansion, executed, collects⟩ := succeeds (by decide)
  obtain ⟨_, _, first, _⟩ := execute_exact _ .strict (.ofBytes [0]) _ _ faulty
  obtain ⟨_, _, last, _⟩ := execute_exact
    ({ mixedReports with ignoresStop := true } : Table).interpreter .strict (.ofBytes [0]) _ _
    faulty
  refine ⟨⟨expansion, executed, collects.states_eq, collects.firings_eq, collects.faults_eq⟩,
    ?_, ?_⟩
  · exact first [.successor [1, 2, 3] ⟨0, 0⟩] _ _ rfl (by decide) (by decide)
  · exact last [.successor [1, 2, 3] ⟨0, 0⟩, .fault ⟨.assertion, 0, 4, some 1⟩] _ [] rfl
      (by decide) (by decide)

end StateSpace

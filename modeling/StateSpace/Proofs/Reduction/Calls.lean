/-
**Calls of a reducer, one after the other.**

* `Reducer.Session` — a computation on a reducer that can end in two ways: with an error it leaves
  the reducer behind as it is at that time, and if it breaks off nothing is left.
* `Reducer.call` — a reduction as such a computation, access by access. `Reducer.reduce_eq_answer`
  says that it is `Reducer.reduce`.
* `Reducer.after` — the reducer after some calls, of which some may have ended with an error.
  `Reducer.after_eq` is what all of them keep.
* `Reducer.call_exact` — what a call does after any others.
-/

import StateSpace.Proofs.Reduction.Indexed
import StateSpace.Proofs.Reduction.Statistics

namespace StateSpace

/-- A state is recorded only where the counters have room for it. -/
theorem Stats.room_of_record {stats later : Stats} {reduced enabled : Nat}
    (recorded : stats.record reduced enabled = .ok later) :
    stats.states + 1 < UInt64.size ∧ stats.reduced + reduced < UInt64.size ∧
      stats.enabled + enabled < UInt64.size := by
  have spec := stats.record_spec reduced enabled
  rw [recorded] at spec
  exact spec.1

namespace Reducer

/-- **A computation on a reducer.** After an error the reducer is left as it is at that time; a
computation that breaks off leaves nothing. -/
abbrev Session := ExceptT Error (StateT Reducer (Except Abort))

namespace Session

variable {α β : Type} {computation : Session α} {r later : Reducer}

theorem run_get_bind (next : Reducer → Session β) (r : Reducer) :
    (get >>= next : Session β).run.run r = (next r).run.run r :=
  rfl

/-- A computation that is followed by another one. -/
theorem run_bind_ok {value : α} (ended : computation.run.run r = .ok (.ok value, later))
    (next : α → Session β) :
    (computation >>= next).run.run r = (next value).run.run later := by
  show Except.bind (computation.run.run r) _ = _
  rw [ended]
  rfl

/-- What follows an error is left out. -/
theorem run_bind_error {cause : Error} (ended : computation.run.run r = .ok (.error cause, later))
    (next : α → Session β) : (computation >>= next).run.run r = .ok (.error cause, later) := by
  show Except.bind (computation.run.run r) _ = _
  rw [ended]
  rfl

/-- A computation that does not look at the reducer. -/
theorem run_lift_bind (computation : Except Abort α) (next : α → Session β) (r : Reducer) :
    ((liftM computation : Session α) >>= next).run.run r
      = computation >>= fun value => (next value).run.run r := by
  cases computation with
  | error abort => rfl
  | ok value => rfl

end Session

/-- Marks an entry of an enabled list, which must be a transition of the system. -/
def markEnabled (count : Nat) (fires : Members) (t : Nat) : Session Members :=
  if count ≤ t then throw (.transitionOutOfRange t count)
  else liftM (fires.mark t)

/-- **A call**: the entries are marked, the flags are computed, and the state is recorded. -/
def call (enabled : List Nat) (holds : Oracle) : Session (List Bool) := do
  let r ← get
  let fires ← enabled.foldlM (markEnabled r.transitionCount)
    (Array.replicate r.transitionCount false)
  let kept ← liftM (r.flagsByIndex fires enabled holds)
  let stats ← liftM (r.stats.record (kept.count true) enabled.length)
  set { r with stats := stats }
  return kept

/-- How a call ends and what reducer it leaves. -/
def outcome (r : Reducer) (enabled : List Nat) (holds : Oracle) :
    Except Abort (Except Error (List Bool) × Reducer) :=
  (call enabled holds).run.run r

/-- **The reducer after some calls**, each of which may have ended with an error. -/
def after (r : Reducer) : List (List Nat × Oracle) → Except Abort Reducer
  | [] => .ok r
  | (enabled, holds) :: rest => do
    let ended ← r.outcome enabled holds
    ended.2.after rest

/-- What the caller gets to see. -/
def answer :
    Except Abort (Except Error (List Bool) × Reducer) → Except Failure (List Bool × Reducer)
  | .error abort => .error (.abort abort)
  | .ok (.error cause, _) => .error (.error cause)
  | .ok (.ok flags, later) => .ok (flags, later)

variable {r : Reducer} {enabled : List Nat} {holds : Oracle}

/-- **Marking the entries** ends at the first one that is no transition of the system, and does not
change the reducer. -/
theorem run_markEnabled (r : Reducer) (enabled : List Nat) {count : Nat} {fires : Members}
    (size : fires.size = count) :
    (enabled.foldlM (markEnabled count) fires).run.run r
      = .ok (match enabled.find? fun t => count ≤ t with
          | some t => .error (.transitionOutOfRange t count)
          | none => .ok (enabled.foldl (fun members t => members.setIfInBounds t true) fires),
        r) := by
  induction enabled generalizing fires with
  | nil => rfl
  | cons first rest ih =>
    rw [List.foldlM_cons, List.find?_cons]
    by_cases beyond : count ≤ first
    · rw [markEnabled, if_pos beyond, decide_eq_true beyond]
      rfl
    · have inside : first < fires.size := by omega
      rw [markEnabled, if_neg beyond, decide_eq_false beyond, Members.mark_eq inside]
      exact ih (Array.size_setIfInBounds.trans size)

/-- **A call, step by step.** -/
theorem outcome_eq (r : Reducer) (enabled : List Nat) (holds : Oracle) :
    r.outcome enabled holds
      = match enabled.find? fun t => r.transitionCount ≤ t with
        | some t => .ok (.error (.transitionOutOfRange t r.transitionCount), r)
        | none => do
          let kept ← r.flagsByIndex (.ofList r.transitionCount enabled) enabled holds
          let stats ← r.stats.record (kept.count true) enabled.length
          return (.ok kept, { r with stats := stats }) := by
  have marked := run_markEnabled r enabled
    (Array.size_replicate (n := r.transitionCount) (v := false))
  unfold outcome call
  rw [Session.run_get_bind]
  cases beyond : enabled.find? fun t => r.transitionCount ≤ t with
  | some t =>
    rw [beyond] at marked
    exact Session.run_bind_error marked _
  | none =>
    rw [beyond] at marked
    rw [Session.run_bind_ok marked, Session.run_lift_bind]
    refine bind_congr fun kept => ?_
    rw [Session.run_lift_bind]
    rfl

/-- **A call with transitions of the system** gives the flags and changes the statistics, or these
overflow. -/
theorem outcome_of_inside (indexable : r.Indexable) (holds : Oracle)
    (inside : ∀ t ∈ enabled, t < r.transitionCount) :
    r.outcome enabled holds
      = (r.stats.record ((r.flags enabled holds).count true) enabled.length).map
          fun stats => (.ok (r.flags enabled holds), { r with stats := stats }) := by
  rw [outcome_eq, find?_outOfRange inside]
  dsimp only
  rw [indexable.flagsByIndex_eq holds inside]
  show (r.stats.record ((r.flags enabled holds).count true) enabled.length >>= fun stats => _) = _
  cases r.stats.record ((r.flags enabled holds).count true) enabled.length with
  | error abort => rfl
  | ok stats => rfl

/-- Either some entry is the first that is no transition of the system, or there is none. -/
theorem find?_beyond_cases (count : Nat) (enabled : List Nat) :
    (∀ t ∈ enabled, t < count) ∨ ∃ t, (enabled.find? fun t => count ≤ t) = some t := by
  cases found : enabled.find? fun t => count ≤ t with
  | some t => exact .inr ⟨t, rfl⟩
  | none =>
    refine .inl fun t member => ?_
    have below := List.find?_eq_none.mp found t member
    simpa using below

/-- **A call ends with an error** exactly if some entry is no transition of the system. The first
such entry is named, and the reducer is left as it was. -/
theorem outcome_eq_error_iff (indexable : r.Indexable) {cause : Error} {later : Reducer} :
    r.outcome enabled holds = .ok (.error cause, later) ↔
      ∃ before t rest, enabled = before ++ t :: rest ∧ (∀ u ∈ before, u < r.transitionCount) ∧
        r.transitionCount ≤ t ∧ cause = .transitionOutOfRange t r.transitionCount ∧ later = r := by
  rcases find?_beyond_cases r.transitionCount enabled with inside | ⟨t, found⟩
  · refine iff_of_false ?_ ?_
    · rw [outcome_of_inside indexable holds inside]
      cases r.stats.record ((r.flags enabled holds).count true) enabled.length with
      | error abort => exact fun ends => by cases ends
      | ok stats => exact fun ends => by cases ends
    · rintro ⟨before, t, rest, rfl, _, beyond, _⟩
      exact Nat.not_lt.mpr beyond (inside t (List.mem_append_right _ List.mem_cons_self))
  · rw [outcome_eq, found]
    constructor
    · intro ends
      cases ends
      obtain ⟨beyond, before, rest, split, below⟩ := List.find?_eq_some_iff_append.mp found
      refine ⟨before, t, rest, split, fun u member => ?_, of_decide_eq_true beyond, rfl, rfl⟩
      simpa using below u member
    · rintro ⟨before, u, rest, rfl, below, beyond, rfl, rfl⟩
      have first : ((before ++ u :: rest).find? fun t => later.transitionCount ≤ t) = some u :=
        List.find?_eq_some_iff_append.mpr ⟨decide_eq_true beyond, before, rest, rfl,
          fun v member => by simpa using below v member⟩
      rw [found] at first
      rw [Option.some.inj first]

/-- **A call with transitions of the system is answered** if the counters have room, and otherwise
they overflow. -/
theorem outcome_cases (indexable : r.Indexable) (holds : Oracle)
    (inside : ∀ t ∈ enabled, t < r.transitionCount) :
    if r.stats.states + 1 < UInt64.size ∧
      r.stats.reduced + (r.flags enabled holds).count true < UInt64.size ∧
      r.stats.enabled + enabled.length < UInt64.size then
      ∃ stats, r.stats.record ((r.flags enabled holds).count true) enabled.length = .ok stats ∧
        r.outcome enabled holds = .ok (.ok (r.flags enabled holds), { r with stats := stats })
    else r.outcome enabled holds = .error .overflow := by
  have ends := outcome_of_inside indexable holds inside
  split
  · next room =>
    obtain ⟨stats, recorded, _⟩ := Stats.exists_record room.1 room.2.1 room.2.2
    rw [recorded] at ends
    exact ⟨stats, recorded, ends⟩
  · next full =>
    rcases r.stats.record_cases ((r.flags enabled holds).count true) enabled.length with
      ⟨stats, recorded, _⟩ | ⟨overflows, _⟩
    · exact absurd (Stats.room_of_record recorded) full
    · rw [overflows] at ends
      exact ends

/-- Nothing in a call is out of range. -/
theorem outcome_ne_outOfRange (indexable : r.Indexable) (enabled : List Nat) (holds : Oracle) :
    r.outcome enabled holds ≠ .error .outOfRange := by
  rcases find?_beyond_cases r.transitionCount enabled with inside | ⟨t, found⟩
  · have ends := outcome_cases indexable holds inside
    split at ends
    · obtain ⟨stats, _, answered⟩ := ends
      rw [answered]
      exact fun broken => by cases broken
    · rw [ends]
      exact fun broken => by cases broken
  · rw [outcome_eq, found]
    exact fun broken => by cases broken

/-- **What the running reduction answers** is how the call ends. -/
theorem reduce_eq_answer (indexable : r.Indexable) (enabled : List Nat) (holds : Oracle) :
    r.reduce enabled holds = answer (r.outcome enabled holds) := by
  rcases find?_beyond_cases r.transitionCount enabled with inside | ⟨t, found⟩
  · rw [reduce_eq inside, outcome_of_inside indexable holds inside]
    cases r.stats.record ((r.flags enabled holds).count true) enabled.length with
    | error abort => rfl
    | ok stats => rfl
  · rw [reduce, outcome_eq, found]
    rfl

/-- **A call changes only the statistics.** -/
theorem eq_of_outcome (indexable : r.Indexable) {ended : Except Error (List Bool)} {later : Reducer}
    (ends : r.outcome enabled holds = .ok (ended, later)) :
    ∃ stats, later = { r with stats := stats } := by
  rcases find?_beyond_cases r.transitionCount enabled with inside | ⟨t, found⟩
  · rw [outcome_of_inside indexable holds inside] at ends
    cases recorded : r.stats.record ((r.flags enabled holds).count true) enabled.length with
    | error abort =>
      rw [recorded] at ends
      cases ends
    | ok stats =>
      rw [recorded] at ends
      cases ends
      exact ⟨stats, rfl⟩
  · rw [outcome_eq, found] at ends
    cases ends
    exact ⟨r.stats, rfl⟩

/-- **So do any number of calls.** -/
theorem after_eq (indexable : r.Indexable) {calls : List (List Nat × Oracle)} {later : Reducer}
    (run : r.after calls = .ok later) : ∃ stats, later = { r with stats := stats } := by
  induction calls generalizing r with
  | nil =>
    obtain rfl := Except.ok.inj run
    exact ⟨r.stats, rfl⟩
  | cons first rest ih =>
    unfold after at run
    cases ends : r.outcome first.1 first.2 with
    | error abort =>
      rw [ends] at run
      cases run
    | ok ended =>
      rw [ends] at run
      obtain ⟨stats, same⟩ := eq_of_outcome indexable ends
      have run : ended.2.after rest = .ok later := run
      rw [same] at run
      obtain ⟨final, rfl⟩ := ih (indexable.withStats stats) run
      exact ⟨final, rfl⟩

/-- **Something is kept** of a list that is not empty. -/
theorem Represents.true_mem_flags {s : TransitionSystem} {options : Options}
    (represents : r.Represents s options) (known : ∀ t ∈ enabled, t < s.transitions.size)
    (nonempty : enabled ≠ []) (holds : Oracle) : true ∈ r.flags enabled holds := by
  have inside := represents.inside known
  have flagged : r.flags enabled holds
      = enabled.map (r.members enabled holds (seedOf enabled)).has := by
    refine flags_eq_map fun t single => ?_
    subst single
    exact represents.has_members_alone (known t (List.mem_singleton_self t))
  obtain ⟨t, member⟩ := List.exists_mem_of_ne_nil _ nonempty
  rw [flagged, List.mem_map]
  unfold members
  cases r.options.method with
  | base =>
    obtain ⟨process, tag⟩ := represents.exists_hasTag (known t member)
    exact exists_baseMember inside member
      (List.ne_nil_of_mem (represents.mem_processesOf.mpr tag))
  | stubbornSet =>
    have seed := seedOf_mem member
    exact ⟨_, seed, has_closureOf_of_seed (List.mem_singleton_self _) (inside _ seed)⟩

/-- **Calls are safe, and those that fail change nothing.** Take a reducer that was made for a
description with `n` transitions, and any calls. After these, a call is what the running reduction
answers, and nothing in it is out of range. It ends with an error exactly if some entry of the list
is no transition, names the first one of them, and leaves the reducer as it was. Otherwise there are
flags that do not depend on the calls before: one for each entry, and one of them true unless there
is no entry. The call gives these and records one state in the statistics, or the counters have no
room for it. -/
theorem call_exact {s : TransitionSystem} {options : Options} {made : Reducer}
    (isMade : ofSystem s options = .ok made) (enabled : List Nat) (holds : Oracle) :
    (∀ calls r, made.after calls = .ok r →
      r.reduce enabled holds = answer (r.outcome enabled holds) ∧
      r.outcome enabled holds ≠ .error .outOfRange ∧
      ∀ cause later, r.outcome enabled holds = .ok (.error cause, later) ↔
        ∃ before t rest, enabled = before ++ t :: rest ∧ (∀ u ∈ before, u < s.transitions.size) ∧
          s.transitions.size ≤ t ∧ cause = .transitionOutOfRange t s.transitions.size ∧
          later = r) ∧
    ((∀ t ∈ enabled, t < s.transitions.size) →
      ∃ flags : List Bool, flags.length = enabled.length ∧ (enabled ≠ [] → true ∈ flags) ∧
        ∀ calls r, made.after calls = .ok r →
          if r.stats.states + 1 < UInt64.size ∧ r.stats.reduced + flags.count true < UInt64.size ∧
            r.stats.enabled + enabled.length < UInt64.size then
            ∃ stats, r.stats.record (flags.count true) enabled.length = .ok stats ∧
              r.outcome enabled holds = .ok (.ok flags, { r with stats := stats })
          else r.outcome enabled holds = .error .overflow) := by
  have fresh := indexable_of_ofSystem isMade
  have represents := represents_of_ofSystem isMade
  have count : made.transitionCount = s.transitions.size := represents.transitionCount_eq
  constructor
  · intro calls r run
    obtain ⟨stats, rfl⟩ := after_eq fresh run
    have indexable := fresh.withStats stats
    refine ⟨reduce_eq_answer indexable enabled holds,
      outcome_ne_outOfRange indexable enabled holds, fun cause later => ?_⟩
    rw [← count]
    exact outcome_eq_error_iff indexable
  · intro known
    have inside := represents.inside known
    refine ⟨made.flags enabled holds, length_flags made enabled holds,
      fun nonempty => represents.true_mem_flags known nonempty holds, fun calls r run => ?_⟩
    obtain ⟨stats, rfl⟩ := after_eq fresh run
    rw [← flags_stats made stats]
    exact outcome_cases (fresh.withStats stats) holds inside

/-- A call about transitions that there are not fails without a trace, and the next one is answered
for all four entries. -/
theorem call_exact_twoFlags :
    ∃ made, ofSystem twoFlags ⟨.stubbornSet, false⟩ = .ok made ∧
      made.outcome [0, 7, 9] (fun _ => none)
        = .ok (.error (.transitionOutOfRange 7 3), made) ∧
      ∃ r, made.after [([0, 7, 9], fun _ => none)] = .ok r ∧
        ∃ flags stats, flags.length = 4 ∧ true ∈ flags ∧
          r.stats.record (flags.count true) 4 = .ok stats ∧
          r.outcome [2, 0, 1, 0] (fun _ => none) = .ok (.ok flags, { r with stats := stats }) := by
  let made := ofAnalysis (.ofValid twoFlags) ⟨.stubbornSet, false⟩
  have isMade : ofSystem twoFlags ⟨.stubbornSet, false⟩ = .ok made := rfl
  have failing := call_exact isMade [0, 7, 9] fun _ => none
  have answered := call_exact isMade [2, 0, 1, 0] fun _ => none
  have fails := ((failing.1 [] _ rfl).2.2 (.transitionOutOfRange 7 3) _).mpr
    ⟨[0], 7, [9], rfl, by decide, by decide, rfl, rfl⟩
  have nothing : made.after [([0, 7, 9], fun _ => none)] = .ok made := by
    unfold after
    rw [fails]
    rfl
  refine ⟨made, isMade, fails, made, nothing, ?_⟩
  obtain ⟨flags, length, some, outcome⟩ := answered.2 (by decide)
  have few : flags.count true ≤ 4 := List.count_le_length.trans (Nat.le_of_eq length)
  have room : 0 + flags.count true < UInt64.size := by
    have : 4 < UInt64.size := by decide
    omega
  have ends := outcome _ _ nothing
  rw [if_pos ⟨by decide, room, by decide⟩] at ends
  obtain ⟨stats, recorded, ends⟩ := ends
  exact ⟨flags, stats, length, some (List.cons_ne_nil _ _), recorded, ends⟩

end Reducer

end StateSpace

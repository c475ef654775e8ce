/-
**Commands at fault.**

Whether a command is at fault is decided by what it reads (`Model.local_clean`), so the sets of a
reduction are stubborn also if such commands are not fired.

* `Model.closed_stubbornSet`, `Model.fires_stubborn` — a graph of stubborn sets fires the enabled
  members of closed sets.
* `Model.Fires.exists_run` — the reachable states of a graph are at the end of runs in which no
  command is at fault.
* `Model.Fires.walks` — where all expansions succeed, the graph walks the semantics without these
  commands, `Model.faultless`.
* `Model.Fires.runtime_iff` — a strict search reports a fault exactly if a command that fires is at
  fault at the end of such a run.
-/

import StateSpace.Proofs.Program.Searches
import StateSpace.Proofs.Reduction.Deadlocks

namespace StateSpace

open Explorable

/-- Whether a command is at fault depends on the byte of its forbidden binding. -/
theorem Command.faulty_congr {p : Program} {first second : List UInt8} {command : Command}
    (same : ∀ binding, command.forbidden = some binding →
      first[p.slot binding]? = second[p.slot binding]?) :
    command.faulty p first = command.faulty p second := by
  unfold Command.faulty
  cases given : command.forbidden with
  | none => rfl
  | some binding => simp only [Option.any_some, Program.bound, same binding given]

namespace Model

variable {m : Model}

/-- The semantics in which commands at fault are not fired. -/
abbrev faultless (m : Model) : Semantics m.State (Option UInt8) :=
  m.semantics.restrict fun x t => ¬ x.Faulty t

/-- **What a command reads decides whether it is at fault.** -/
theorem local_clean (m : Model) : m.semantics.Local m.system fun x t => ¬ x.Faulty t := by
  intro x y t same
  refine not_congr (exists_congr fun command => and_congr_right fun used => ?_)
  have found : m.program.system.transitions[t]?
      = some (m.program.transition m.program.sharedGuards command) := by
    rw [Program.getElem?_transitions, used]
    rfl
  have reads : ∀ binding, command.forbidden = some binding →
      x.1[m.program.slot binding]? = y.1[m.program.slot binding]? := by
    intro binding given
    refine same _ (.inl ⟨_, found, ?_⟩)
    exact List.mem_map_of_mem (Option.mem_toList.mpr given)
  rw [Command.faulty_congr reads]

/-! ### Stubborn sets -/

section Stubborn

variable {i : Interpreter}

theorem closed_stubbornSet (executes : m.Executes i) (options : Options) (x : m.State) :
    m.semantics.Closed m.system x fun t => (m.stubbornSet i options x).has t = true :=
  Reducer.closed_closureOf_demands m.conforms (Program.system_wellFormed m.inOrder) options
    (fun _ => mem_readyNumbers_iff) (executes.truthful x) _

/-- The sets are stubborn also if commands at fault are not fired. -/
theorem stubborn_faultless (executes : m.Executes i) (options : Options) (x : m.State) :
    m.faultless.Stubborn x fun t => (m.stubbornSet i options x).has t = true :=
  m.conforms.stubborn_restrict_of_closed (Program.system_wellFormed m.inOrder) m.local_clean
    (closed_stubbornSet executes options x)

theorem kept_stubborn {options : Options} (method : options.method = .stubbornSet) (x : m.State) :
    Interpreted.kept (m.readyNumbers x.1) (m.flagsOf i options x)
      = (m.readyNumbers x.1).filter (m.stubbornSet i options x).has := by
  refine Interpreted.kept_flags_stubborn method fun t member => ?_
  exact (m.conforms.enabled_iff.mp (mem_readyNumbers_iff.mp member)).1

/-- Where something is enabled, a member is: the least enabled command. -/
theorem exists_enabled_member (i : Interpreter) (options : Options) {x : m.State} {t : Nat}
    (enabled : m.semantics.enabled x t) :
    ∃ u, m.semantics.enabled x u ∧ (m.stubbornSet i options x).has u = true := by
  have seed := Reducer.seedOf_mem (mem_readyNumbers_iff.mpr enabled)
  have seedEnabled := mem_readyNumbers_iff.mp seed
  exact ⟨_, seedEnabled,
    Reducer.has_stubbornMembers_seed options (m.conforms.enabled_iff.mp seedEnabled).1⟩

theorem fires_stubborn (executes : m.Executes i) (memory : m.system.fitsMemory = true)
    (policy : Policy) {options : Options} (method : options.method = .stubbornSet) :
    m.Fires (m.reducedGraph i policy options .initial) policy fun x t =>
      (m.stubbornSet i options x).has t = true where
  starts := executes.initialImage
  fires x := by
    refine ⟨_, next_reduced executes memory policy options x, fun t => ?_⟩
    rw [kept_stubborn method, List.mem_filter, mem_readyNumbers_iff]

end Stubborn

/-! ### Runs without a fault -/

namespace Fires

variable {G : Type} [Explorable G] {graph : G} {policy : Policy} {members : m.State → Nat → Prop}

theorem exists_run (fires : m.Fires graph policy members) {state : Image}
    (reachable : Reachable graph state) :
    ∃ x ts, (m.faultless.restrict members).Run (State.zero m) ts x ∧ state = x.image := by
  refine reachable.induct
    (fun state => ∃ x ts, (m.faultless.restrict members).Run (State.zero m) ts x ∧ state = x.image)
    (fun first begins => ?_) fun before target _ known edge => ?_
  · exact ⟨_, [], .nil _, fires.moves.starts begins⟩
  · obtain ⟨x, ts, run, rfl⟩ := known
    rcases fires.next_cases x with ⟨_, _, error, failed⟩ | ⟨_, fired, expands, listed⟩
    · obtain ⟨targets, succeeds, _⟩ := edge
      rw [failed] at succeeds
      cases succeeds
    · obtain ⟨t, member, rfl⟩ := List.mem_map.mp ((edge_iff expands).mp edge)
      exact ⟨_, ts ++ [t], run.append (.cons ((listed t).mp member) (.nil _)), rfl⟩

/-- **A graph whose expansions succeed** walks the semantics without commands at fault. -/
theorem walks (fires : m.Fires graph policy members)
    (starts : m.interpreter.initialImage = .ok (State.zero m).image)
    (succeeds : ∀ state, Reachable graph state → ∃ targets, next graph state = .ok targets) :
    (m.faultless.restrict members).Walks graph State.image (State.zero m) where
  starts := fires.starts.trans starts
  expands := by
    intro x reachable
    rcases fires.next_cases x with ⟨_, _, error, failed⟩ | ⟨_, expands⟩
    · obtain ⟨targets, succeeds⟩ := succeeds _ reachable
      rw [failed] at succeeds
      cases succeeds
    · exact expands

/-- **When a strict search reports a fault.** -/
theorem runtime_iff (fires : m.Fires graph .strict members)
    (starts : m.interpreter.initialImage = .ok (State.zero m).image)
    {result : Except Failure Report} (verdict : Verdict graph result) :
    (∃ error, result = .error (.error (.runtime error))) ↔
      ∃ x ts t, (m.faultless.restrict members).Run (State.zero m) ts x ∧
        m.semantics.enabled x t ∧ members x t ∧ x.Faulty t := by
  cases verdict with
  | noStart begins =>
    rw [fires.starts, starts] at begins
    cases begins
  | failed reachable fails =>
    obtain ⟨x, ts, run, rfl⟩ := fires.exists_run reachable
    rcases fires.next_cases x with ⟨_, ⟨t, enabled, member, faulty⟩, error, failed⟩ | ⟨_, _, ok, _⟩
    · rw [failed, Except.error.injEq] at fails
      rw [← fails]
      exact ⟨fun _ => ⟨x, ts, t, run, enabled, member, faulty⟩, fun _ => ⟨error, rfl⟩⟩
    · rw [ok] at fails
      cases fails
  | exact begins expands exact =>
    refine ⟨fun runtime => ?_, ?_⟩
    · obtain ⟨error, runtime⟩ := runtime
      cases runtime
    · rintro ⟨x, ts, t, run, enabled, member, faulty⟩
      have reachable := (fires.walks starts expands).reachable_iff.mpr ⟨x, ts, run, rfl⟩
      rcases fires.next_cases x with ⟨_, _, error, failed⟩ | ⟨clean, _⟩
      · obtain ⟨targets, succeeds⟩ := expands _ reachable
        rw [failed] at succeeds
        cases succeeds
      · exact absurd faulty (clean rfl t enabled member)

end Fires

end Model

end StateSpace

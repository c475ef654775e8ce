/-
**Searches of a program end.**

All bytes of a program are zero at first, and a command writes two of them at most. So
`Program.stateBound` bounds the number of states, whichever of the enabled commands are fired.

* `Model.Moves` — a graph whose edges are commands of a model.
* `Model.Moves.finite_reachable` — it has no more reachable states than the bound.
* `Model.Moves.exists_explore` — so a search of it ends, if its answers depend on the state alone.
* `Model.Fires` — a graph in which some of the enabled commands fire, and `Model.Fires.next_cases`
  all that an expansion can do in it. The full graph is one, and so is every reduced graph
  (`Model.fires_full`, `Model.fires_reduced`).
* `Model.tame_reduced` — the interpreters of a model answer about all of its states, which leaves
  the statistics as the only thing that can break a reduced search off.
* `Model.exists_explore_reduced` — a reduced search ends with a verdict on its graph, or at states
  that are not countable.
-/

import Mathlib.Data.Set.Card
import StateSpace.Proofs.Program.Graphs
import StateSpace.Proofs.Reduction.Statistics

namespace StateSpace

open Explorable

/-! ### Written bytes -/

/-- The bytes that some command writes. -/
def Program.writtenPlaces (p : Program) : List Nat :=
  p.commands.toList.flatMap fun command => command.process :: command.update.toList.map p.slot

/-- **A command writes two bytes at most.** -/
theorem Program.length_writtenPlaces_le (p : Program) :
    p.writtenPlaces.length ≤ 2 * p.commands.size := by
  have two : ∀ command : Command,
      (command.process :: command.update.toList.map p.slot).length ≤ 2 := by
    intro command
    cases command.update with
    | none => exact Nat.le_succ 1
    | some binding => exact Nat.le_refl 2
  unfold writtenPlaces
  rw [← Array.length_toList]
  induction p.commands.toList with
  | nil => exact Nat.le_refl 0
  | cons command rest ih =>
    rw [List.flatMap_cons, List.length_append]
    refine (Nat.add_le_add (two command) ih).trans ?_
    rw [List.length_cons]
    omega

namespace Model

variable {m : Model}

/-- An image of a state of the model. -/
def IsState (m : Model) (state : Image) : Prop :=
  ∃ x : m.State, state = x.image

namespace State

/-- A state in which all bytes that no command writes are zero. -/
def Grounded (x : m.State) : Prop :=
  ∀ v, v ∉ m.program.writtenPlaces → x.1[v]? = (zero m).1[v]?

theorem Grounded.fire {x : m.State} (grounded : x.Grounded) (t : Nat) :
    (m.semantics.fire x t).Grounded := by
  intro v unwritten
  cases used : m.program.commands[t]? with
  | none =>
    rw [fire_of_none used]
    exact grounded v unwritten
  | some command =>
    have listed : command ∈ m.program.commands.toList :=
      Array.mem_toList_iff.mpr (Array.mem_of_getElem? used)
    have written : ∀ place ∈ command.process :: command.update.toList.map m.program.slot,
        v ≠ place := by
      rintro place member rfl
      exact unwritten (List.mem_flatMap.mpr ⟨command, listed, member⟩)
    rw [val_fire used, Command.getElem?_apply_of_ne (written _ List.mem_cons_self)]
    · exact grounded v unwritten
    · intro binding update
      refine written _ (List.mem_cons_of_mem _ (List.mem_map_of_mem ?_))
      exact Option.mem_toList.mpr update

/-- What the written bytes hold. -/
def code (x : m.State) (place : Fin m.program.writtenPlaces.length) : Fin 256 :=
  (x.1[m.program.writtenPlaces.get place]?.getD 0).toFin

/-- **A grounded state is known by its written bytes.** -/
theorem code_injOn : Set.InjOn code {x : m.State | x.Grounded} := by
  intro x grounded y grounded' same
  refine Subtype.ext (List.ext_getElem? fun v => ?_)
  by_cases written : v ∈ m.program.writtenPlaces
  · obtain ⟨place, rfl⟩ := List.get_of_mem written
    have byte := UInt8.toFin_inj.mp (congrFun same place)
    have sizes : x.1.length = y.1.length := x.2.trans y.2.symm
    by_cases inside : m.program.writtenPlaces.get place < x.1.length
    · have inside' := sizes ▸ inside
      rw [List.getElem?_eq_getElem inside, List.getElem?_eq_getElem inside'] at byte ⊢
      exact congrArg some byte
    · rw [List.getElem?_eq_none (Nat.le_of_not_lt inside),
        List.getElem?_eq_none (sizes ▸ Nat.le_of_not_lt inside)]
  · rw [grounded v written, grounded' v written]

theorem finite_grounded (m : Model) :
    {x : m.State | x.Grounded}.Finite ∧
      {x : m.State | x.Grounded}.ncard ≤ m.program.stateBound := by
  have finite : {x : m.State | x.Grounded}.Finite :=
    Set.Finite.of_injOn (Set.mapsTo_univ code _) code_injOn Set.finite_univ
  refine ⟨finite, ?_⟩
  calc {x : m.State | x.Grounded}.ncard
    _ ≤ (Set.univ : Set (Fin m.program.writtenPlaces.length → Fin 256)).ncard :=
      Set.ncard_le_ncard_of_injOn code (fun _ _ => Set.mem_univ _) code_injOn Set.finite_univ
    _ = 256 ^ m.program.writtenPlaces.length := by
      rw [Set.ncard_univ, Nat.card_eq_fintype_card, Fintype.card_fun, Fintype.card_fin,
        Fintype.card_fin]
    _ ≤ m.program.stateBound :=
      Nat.pow_le_pow_right (by decide) m.program.length_writtenPlaces_le

end State

/-! ### Graphs of commands -/

section Moves

variable {G : Type} [Explorable G] {graph : G}

/-- **A graph whose edges are commands**, from the state in which everything is zero. -/
structure Moves (m : Model) (graph : G) : Prop where
  starts : ∀ {state : Image}, Explorable.initial graph = .ok state → state = (State.zero m).image
  steps : ∀ {x : m.State} {target : Image}, Edge graph x.image target →
    ∃ t, target = (m.semantics.fire x t).image

namespace Moves

theorem exists_grounded (moves : m.Moves graph) {state : Image}
    (reachable : Reachable graph state) :
    ∃ x : m.State, x.Grounded ∧ state = x.image := by
  refine reachable.induct (fun state => ∃ x : m.State, x.Grounded ∧ state = x.image)
    (fun first begins => ?_) fun before target _ known edge => ?_
  · exact ⟨State.zero m, fun _ _ => rfl, moves.starts begins⟩
  · obtain ⟨x, grounded, rfl⟩ := known
    obtain ⟨t, same⟩ := moves.steps edge
    exact ⟨_, grounded.fire t, same⟩

theorem isState (moves : m.Moves graph) {state : Image} (reachable : Reachable graph state) :
    m.IsState state := by
  obtain ⟨x, _, same⟩ := moves.exists_grounded reachable
  exact ⟨x, same⟩

/-- Images with a byte per variable are told apart. -/
theorem apart (moves : m.Moves graph) : Search.Apart (Reachable graph) := by
  have size : ∀ state, Reachable graph state → state.size = m.program.imageSize := by
    intro state reachable
    obtain ⟨x, rfl⟩ := moves.isState reachable
    exact x.2
  exact .of_size fun first second known known' => (size first known).trans (size second known').symm

/-- Successors of states are states. -/
theorem closed (moves : m.Moves graph) (state : Image) (targets : List Image)
    (known : m.IsState state) (expands : next graph state = .ok targets) :
    ∀ target ∈ targets, m.IsState target := by
  intro target member
  obtain ⟨x, rfl⟩ := known
  obtain ⟨t, same⟩ := moves.steps ⟨targets, expands, member⟩
  exact ⟨_, same⟩

/-- **It has no more reachable states than the bound.** -/
theorem finite_reachable (moves : m.Moves graph) :
    {state | Reachable graph state}.Finite ∧
      {state | Reachable graph state}.ncard ≤ m.program.stateBound := by
  obtain ⟨finite, few⟩ := State.finite_grounded m
  have inside : ∀ state, Reachable graph state → ∃ x ∈ {x : m.State | x.Grounded},
      x.image = state := by
    intro state reachable
    obtain ⟨x, grounded, same⟩ := moves.exists_grounded reachable
    exact ⟨x, grounded, same.symm⟩
  obtain ⟨finite', fewer⟩ := finite_reachable_of_image State.image finite inside
  exact ⟨finite', fewer.trans few⟩

/-- **A search of it ends.** -/
theorem exists_explore (moves : m.Moves graph) (functional : Functional graph) (limits : Limits)
    (done : Nat → Image → Bool) :
    ∃ outcome, explore m.program.stateBound graph limits done = some outcome := by
  obtain ⟨finite, few⟩ := moves.finite_reachable
  obtain ⟨outcome, ends⟩ := explore_ends functional.steady moves.apart finite
  exact ⟨outcome, ends _ few⟩

end Moves

end Moves

/-! ### The graphs of a model -/

theorem eq_zero_of_initialImage {state : Image}
    (begins : m.interpreter.initialImage = .ok state) : state = (State.zero m).image := by
  rcases Nat.eq_zero_or_pos m.program.processCount with none | inhabited
  · have made : m.interpreter.initial.get = m.initial := rfl
    rw [Interpreter.initialImage, made, initial, if_pos none] at begins
    cases begins
  · rw [initialImage_eq inhabited begins, Except.ok.injEq] at begins
    exact begins.symm

variable {i : Interpreter}

theorem Executes.enabledList_eq (executes : m.Executes i) (x : m.State) :
    i.enabledList x.image = m.readyNumbers x.1 :=
  Interpreter.enabledList_eq (executes.enabled_eq x)

/-- **A graph in which some of the enabled commands fire**, under some policy. -/
structure Fires {G : Type} [Explorable G] (m : Model) (graph : G) (policy : Policy)
    (members : m.State → Nat → Prop) : Prop where
  starts : Explorable.initial graph = m.interpreter.initialImage
  fires : ∀ x : m.State, ∃ ts, next graph x.image
      = (m.interpreter.execute policy x.image ts).map Expansion.states ∧
    ∀ t, t ∈ ts ↔ m.semantics.enabled x t ∧ members x t

section Fires

variable {G : Type} [Explorable G] {graph : G} {policy : Policy} {members : m.State → Nat → Prop}

/-- **All that an expansion can do.** Under the strict policy it fails if a command that fires is at
fault. Else the commands that fire and are not at fault lead to the successors. -/
theorem Fires.next_cases (fires : m.Fires graph policy members) (x : m.State) :
    (policy = .strict ∧ (∃ t, m.semantics.enabled x t ∧ members x t ∧ x.Faulty t) ∧
      ∃ error, next graph x.image = .error (.error (.runtime error))) ∨
    (policy = .strict → ∀ t, m.semantics.enabled x t → members x t → ¬ x.Faulty t) ∧
      ∃ ts : List Nat, next graph x.image = .ok (ts.map fun t => (m.semantics.fire x t).image) ∧
        ∀ t, t ∈ ts ↔ (m.semantics.enabled x t ∧ ¬ x.Faulty t) ∧ members x t := by
  obtain ⟨ts, expands, listed⟩ := fires.fires x
  rcases execute_cases policy fun t fired => ((listed t).mp fired).1 with
    ⟨isStrict, ⟨t, fired, faulty⟩, error, failed⟩ | ⟨clean, states⟩
  · obtain ⟨enabled, member⟩ := (listed t).mp fired
    refine .inl ⟨isStrict, ⟨t, enabled, member, faulty⟩, error, ?_⟩
    rw [expands, failed]
    rfl
  · refine .inr ⟨fun isStrict t enabled member => ?_, _, expands.trans states, fun t => ?_⟩
    · exact clean isStrict t ((listed t).mpr ⟨enabled, member⟩)
    · rw [List.mem_filter, listed, decide_eq_true_iff]
      exact and_right_comm

theorem Fires.moves (fires : m.Fires graph policy members) : m.Moves graph where
  starts begins := eq_zero_of_initialImage (fires.starts.symm.trans begins)
  steps {x target} edge := by
    rcases fires.next_cases x with ⟨_, _, error, failed⟩ | ⟨_, ts, expands, _⟩
    · obtain ⟨targets, succeeds, _⟩ := edge
      rw [failed] at succeeds
      cases succeeds
    · obtain ⟨t, _, rfl⟩ := List.mem_map.mp ((edge_iff expands).mp edge)
      exact ⟨t, rfl⟩

end Fires

theorem fires_full (executes : m.Executes i) (policy : Policy) :
    m.Fires (Interpreted.full i policy) policy fun _ _ => True where
  starts := executes.initialImage
  fires x := by
    refine ⟨_, next_full executes policy x, fun t => ?_⟩
    rw [mem_readyNumbers_iff, and_true]

theorem lt_of_mem_readyNumbers (options : Options) {x : m.State} :
    ∀ t ∈ m.readyNumbers x.1,
      t < (Reducer.ofAnalysis (Analysis.ofValid m.system) options).transitionCount := by
  intro t member
  have inside := (m.conforms.enabled_iff.mp (mem_readyNumbers_iff.mp member)).1
  exact lt_of_lt_of_eq inside Analysis.transitionCount_ofValid.symm

/-- **Nothing but the statistics can break a reduced search off.** -/
theorem tame_reduced (executes : m.Executes i) (memory : m.system.fitsMemory = true)
    (policy : Policy) (options : Options) :
    (m.reducedGraph i policy options .initial).Tame
      (Reducer.ofAnalysis (Analysis.ofValid m.system) options) m.IsState where
  reduces := rfl
  fresh := rfl
  enabled := by
    rintro _ ⟨x, rfl⟩
    show i.enabled x.image.bytes = .ok (i.enabledList x.image)
    rw [executes.enabledList_eq, executes.enabled_eq]
  inside := by
    rintro _ ⟨x, rfl⟩ t member
    have member : t ∈ i.enabledList x.image := member
    rw [executes.enabledList_eq] at member
    exact lt_of_mem_readyNumbers options t member
  few := by
    rintro _ ⟨x, rfl⟩
    show (i.enabledList x.image).length < UInt64.size
    have fewer : (m.readyNumbers x.1).length ≤ m.program.commands.size := by
      rw [readyNumbers, List.length_map, ← Array.length_toList]
      exact (List.length_filter_le _ _).trans (Nat.le_of_eq List.length_zipIdx)
    rw [executes.enabledList_eq]
    have size : m.system.transitions.size = m.program.commands.size := Array.size_map
    exact Nat.lt_of_le_of_lt (size ▸ fewer) (TransitionSystem.size_lt_of_fitsMemory memory)
  readable := by
    rintro _ ⟨x, rfl⟩ guard
    rcases executes.guardHolds x guard with silent | tells
    · exact ⟨_, silent⟩
    · exact ⟨_, tells⟩

/-- The transitions kept in a state are enabled ones. -/
theorem enabled_of_mem_kept {x : m.State} {flags : List Bool} {t : Nat}
    (member : t ∈ Interpreted.kept (m.readyNumbers x.1) flags) : m.semantics.enabled x t := by
  obtain ⟨⟨u, keep⟩, inside, found⟩ := List.mem_filterMap.mp member
  have fired := (List.of_mem_zip inside).1
  cases keep with
  | false => cases found
  | true =>
    cases found
    exact mem_readyNumbers_iff.mp fired

theorem keptList_eq (executes : m.Executes i) (policy : Policy) (options : Options) (x : m.State) :
    (m.reducedGraph i policy options .initial).keptList
        (Reducer.ofAnalysis (Analysis.ofValid m.system) options) x.image
      = Interpreted.kept (m.readyNumbers x.1) (m.flagsOf i options x) := by
  unfold Interpreted.keptList
  rw [show (m.reducedGraph i policy options .initial).interpreter = i from rfl,
    executes.enabledList_eq]
  rfl

/-- **In a reduced graph the kept commands fire.** -/
theorem next_reduced (executes : m.Executes i) (memory : m.system.fitsMemory = true)
    (policy : Policy) (options : Options) (x : m.State) :
    next (m.reducedGraph i policy options .initial) x.image
      = (m.interpreter.execute policy x.image
          (Interpreted.kept (m.readyNumbers x.1) (m.flagsOf i options x))).map
            Expansion.states := by
  rw [(tame_reduced executes memory policy options).next_eq ⟨x, rfl⟩, keptList_eq executes,
    ← executes.execute]
  rfl

theorem fires_reduced (executes : m.Executes i) (memory : m.system.fitsMemory = true)
    (policy : Policy) (options : Options) :
    m.Fires (m.reducedGraph i policy options .initial) policy fun x t =>
      t ∈ Interpreted.kept (m.readyNumbers x.1) (m.flagsOf i options x) where
  starts := executes.initialImage
  fires x := by
    refine ⟨_, next_reduced executes memory policy options x, fun t => ?_⟩
    exact ⟨fun member => ⟨enabled_of_mem_kept member, member⟩, fun both => both.2⟩

/-- **A reduced search ends with a verdict**, or at states that are not countable. -/
theorem exists_explore_reduced (executes : m.Executes i) (memory : m.system.fitsMemory = true)
    (policy : Policy) (options : Options) :
    ∃ outcome, explore m.program.stateBound (m.reducedGraph i policy options .initial) {}
        (fun _ _ => false) = some outcome ∧
      (outcome.result = .error (.abort .overflow) ∧ ¬ i.Countable outcome.looked ∨
        Verdict (m.reducedGraph i policy options .initial) outcome.result) := by
  have moves := (fires_reduced executes memory policy options).moves
  obtain ⟨finite, few⟩ := moves.finite_reachable
  obtain ⟨outcome, explored, _, settled⟩ :=
    (tame_reduced executes memory policy options).exists_explore
      (fun state begins => ⟨_, moves.starts begins⟩) moves.closed moves.apart finite few
  exact ⟨outcome, explored, settled⟩

end Model

end StateSpace

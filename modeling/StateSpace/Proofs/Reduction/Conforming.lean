/-
**The method `base` on conforming interpreters.**

* `Interpreter.Realizes` — an interpreter that executes a semantics: its images are of one length,
  it lists the enabled transitions in ascending order, each of them leads to one state, and what it
  tells of the guards is the truth.
* `Interpreter.Realizes.tame` — it answers about all states.
* `Interpreter.Realizes.walks_full`, `Interpreter.Realizes.walks_base` — its full graph walks the
  semantics, and a reduced graph its restriction to what is kept.
* `Reducer.Covers` — what the method keeps in a state is covered if the rules of stubborn sets,
  applied to it, ask for no enabled transition that is left out.
* `Table.realizes_of_listed` — a table that lists all states of a semantics realizes it.
* `Interpreter.explore_base_deadlocks` — the reported deadlocks are deadlocks. None is missed if
  what is kept is covered in every state of the search, or if transitions of a common process count
  as interfering. Else some may be (`Interpreter.overtaking_missed`).
-/

import Mathlib.Data.List.Nodup
import Mathlib.Data.Set.Card
import StateSpace.Interpreter.Table
import StateSpace.Proofs.Expansion
import StateSpace.Proofs.Reduction.Base
import StateSpace.Proofs.Reduction.Deadlocks
import StateSpace.Proofs.Reduction.Statistics

namespace StateSpace

open Explorable

variable {State Value : Type}

/-! ### Interpreters that realize a semantics -/

/-- **An interpreter that executes a semantics** without faults, from some state on. -/
structure Interpreter.Realizes (i : Interpreter) (sem : Semantics State Value)
    (image : State → Image) (start : State) : Prop where
  starts : i.initialImage = .ok (image start)
  size : ∀ x y, (image x).size = (image y).size
  enabled : ∀ x, ∃ enabled, i.enabled (image x).bytes = .ok enabled ∧ enabled.Pairwise (· < ·) ∧
    ∀ t, t ∈ enabled ↔ sem.enabled x t
  /-- Transitions are fired one after the other. -/
  report : ∀ x ts, i.report (image x).bytes ts
    = ts.flatMap fun t => i.report (image x).bytes [t]
  fires : ∀ {x t}, sem.enabled x t → ∃ raw firing,
    i.report (image x).bytes [t] = [.ok (.successor raw firing)] ∧
      i.image raw = image (sem.fire x t)
  guards : ∀ x g, i.guardHolds (image x).bytes g = .ok none ∨
    i.guardHolds (image x).bytes g = .ok (some (sem.holds x g))

/-- The reducer of an interpreter whose description can be analysed. -/
def Interpreter.newReducer (i : Interpreter) (options : Options) : Reducer :=
  .ofAnalysis (Analysis.ofValid i.system) options

def Interpreter.reducedGraph (i : Interpreter) (policy : Policy) (options : Options) :
    Interpreted :=
  ⟨i, policy, some (i.newReducer options)⟩

/-- The rules of stubborn sets, applied to what the method `base` keeps. -/
def Reducer.grownBase (r : Reducer) (enabled : List Nat) (holds : Oracle) : Members :=
  closureOf (r.demands (.ofList r.transitionCount enabled) holds) r.transitionCount
    (enabled.filter (r.baseMembers enabled).has)

/-- **What the method `base` keeps is covered** if the rules of stubborn sets ask for no other
enabled transition. -/
def Reducer.Covers (r : Reducer) (enabled : List Nat) (holds : Oracle) : Prop :=
  ∀ t ∈ enabled, (r.grownBase enabled holds).has t = true →
    (r.baseMembers enabled).has t = true

instance (r : Reducer) (enabled : List Nat) (holds : Oracle) :
    Decidable (r.Covers enabled holds) :=
  inferInstanceAs (Decidable (∀ _ ∈ _, _))

namespace Interpreter.Realizes

variable {i : Interpreter} {sem : Semantics State Value} {image : State → Image} {start : State}
  (realizes : i.Realizes sem image start)

include realizes

theorem mem_enabledList {x : State} {t : Nat} :
    t ∈ i.enabledList (image x) ↔ sem.enabled x t := by
  obtain ⟨enabled, lists, _, listed⟩ := realizes.enabled x
  rw [Interpreter.enabledList_eq lists]
  exact listed t

theorem enabled_eq (x : State) : i.enabled (image x).bytes = .ok (i.enabledList (image x)) := by
  obtain ⟨enabled, lists, _⟩ := realizes.enabled x
  rw [lists, Interpreter.enabledList_eq lists]

/-- **Firing enabled transitions leads to one state each.** -/
theorem execute_eq (policy : Policy) {x : State} {ts : List Nat}
    (enabled : ∀ t ∈ ts, sem.enabled x t) :
    (i.execute policy (image x) ts).map Expansion.states
      = .ok (ts.map fun t => image (sem.fire x t)) := by
  have events : ∃ events : List Event, i.report (image x).bytes ts = events.map .ok ∧
      (∀ event ∈ events, event.raised? policy = none) ∧
      (events.filterMap Event.raw?).map i.image = ts.map fun t => image (sem.fire x t) := by
    rw [realizes.report]
    induction ts with
    | nil => exact ⟨[], rfl, by simp, rfl⟩
    | cons t rest ih =>
      obtain ⟨events, reported, clean, raws⟩ :=
        ih fun u member => enabled u (List.mem_cons_of_mem _ member)
      obtain ⟨raw, firing, reports, leads⟩ := realizes.fires (enabled t List.mem_cons_self)
      refine ⟨.successor raw firing :: events, ?_, ?_, ?_⟩
      · rw [List.flatMap_cons, reports, reported]
        rfl
      · rw [List.forall_mem_cons]
        exact ⟨rfl, clean⟩
      · rw [List.filterMap_cons, Event.raw?, List.map_cons, leads, raws, List.map_cons]
  obtain ⟨events, reported, clean, raws⟩ := events
  rw [Interpreter.execute_of_clean reported clean]
  exact congrArg Except.ok raws

/-- Its images are told apart. -/
theorem apart {known : Image → Prop} (states : ∀ state, known state → ∃ x, state = image x) :
    Search.Apart known := by
  refine .of_size fun first second isKnown isKnown' => ?_
  obtain ⟨x, rfl⟩ := states first isKnown
  obtain ⟨y, rfl⟩ := states second isKnown'
  exact realizes.size x y

/-- **The full graph walks the semantics.** -/
theorem walks_full (policy : Policy) :
    sem.Walks (Interpreted.full i policy) image start where
  starts := realizes.starts
  expands := by
    intro x _
    refine ⟨i.enabledList (image x), ?_, fun t => realizes.mem_enabledList⟩
    rw [Interpreted.next_full policy (realizes.enabled_eq x)]
    exact realizes.execute_eq policy fun t member => realizes.mem_enabledList.mp member

/-- What it tells of the guards is the truth. -/
theorem truthful (policy : Policy) (options : Options) (x : State) :
    sem.Truthful x ((i.reducedGraph policy options).oracle (image x)) := by
  intro g
  rcases realizes.guards x g with silent | tells
  · exact .inl (Interpreted.oracle_eq silent)
  · exact .inr (Interpreted.oracle_eq tells)

/-! ### What is kept -/

section Reduced

variable (conforms : sem.Conforms i.system)

include conforms

theorem lt_of_mem_enabledList (options : Options) {x : State} :
    ∀ t ∈ i.enabledList (image x), t < (i.newReducer options).transitionCount := by
  intro t member
  have inside := (conforms.enabled_iff.mp (realizes.mem_enabledList.mp member)).1
  exact lt_of_lt_of_eq inside Analysis.transitionCount_ofValid.symm

variable (memory : i.system.fitsMemory = true)

include memory

theorem tame (policy : Policy) (options : Options) :
    (i.reducedGraph policy options).Tame (i.newReducer options)
      fun state => ∃ x, state = image x where
  reduces := rfl
  fresh := rfl
  enabled := by
    rintro _ ⟨x, rfl⟩
    exact realizes.enabled_eq x
  inside := by
    rintro _ ⟨x, rfl⟩
    exact realizes.lt_of_mem_enabledList conforms options
  few := by
    rintro _ ⟨x, rfl⟩
    obtain ⟨enabled, lists, ascending, _⟩ := realizes.enabled x
    have below : i.enabledList (image x) ⊆ List.range i.system.transitions.size := by
      intro t member
      exact List.mem_range.mpr (conforms.enabled_iff.mp (realizes.mem_enabledList.mp member)).1
    have nodup : (i.enabledList (image x)).Nodup := by
      rw [Interpreter.enabledList_eq lists]
      exact ascending.imp Nat.ne_of_lt
    have fewer := (nodup.subperm below).length_le
    rw [List.length_range] at fewer
    exact Nat.lt_of_le_of_lt fewer (TransitionSystem.size_lt_of_fitsMemory memory)
  readable := by
    rintro _ ⟨x, rfl⟩ guard
    rcases realizes.guards x guard with silent | tells
    · exact ⟨_, silent⟩
    · exact ⟨_, tells⟩

variable (wellFormed : i.system.WellFormed)

include wellFormed

omit memory in
theorem tagged (options : Options) {x : State} :
    ∀ t ∈ i.enabledList (image x), (i.newReducer options).analysis.processesOf t ≠ [] := by
  intro t member
  have inside := (conforms.enabled_iff.mp (realizes.mem_enabledList.mp member)).1
  exact Analysis.processesOf_ne_nil wellFormed inside

omit memory in
/-- Where something is enabled, something is kept. -/
theorem exists_kept (options : Options) {x : State} {t : Nat} (enabled : sem.enabled x t) :
    ∃ u, sem.enabled x u ∧
      ((i.newReducer options).baseMembers (i.enabledList (image x))).has u = true := by
  have member := realizes.mem_enabledList.mpr enabled
  obtain ⟨u, listed, has⟩ := Reducer.exists_baseMember
    (realizes.lt_of_mem_enabledList conforms options) member
    (realizes.tagged conforms wellFormed options t member)
  exact ⟨u, realizes.mem_enabledList.mp listed, has⟩

omit memory in
/-- **If transitions of a common process count as interfering, everything is kept.** -/
theorem has_baseMembers {options : Options} (processLocal : options.processLocal = true) {x : State}
    {t : Nat} (member : t ∈ i.enabledList (image x)) :
    ((i.newReducer options).baseMembers (i.enabledList (image x))).has t = true := by
  obtain ⟨process, tag⟩ :=
    List.exists_mem_of_ne_nil _ (realizes.tagged conforms wellFormed options t member)
  refine Reducer.has_baseMembers_of_meeting (realizes.lt_of_mem_enabledList conforms options)
    (fun u member' different tag' => ?_) member tag
  show t ∈ ((Analysis.ofValid i.system).interference options.processLocal).columns u
  rw [processLocal]
  exact Analysis.mem_interference_of_process wellFormed different tag' tag
    (conforms.not_neverCoenabled (realizes.mem_enabledList.mp member')
      (realizes.mem_enabledList.mp member))

variable (policy : Policy) {options : Options} (method : options.method = .base)

include method

/-- **In a reduced graph the kept transitions fire.** -/
theorem next_base (x : State) :
    next (i.reducedGraph policy options) (image x) = .ok
      (((i.enabledList (image x)).filter
        ((i.newReducer options).baseMembers (i.enabledList (image x))).has).map
          fun t => image (sem.fire x t)) := by
  have isBase : (i.newReducer options).options.method = .base := method
  have kept : (i.reducedGraph policy options).keptList (i.newReducer options) (image x)
      = (i.enabledList (image x)).filter
          ((i.newReducer options).baseMembers (i.enabledList (image x))).has :=
    Interpreted.kept_flags_base isBase (realizes.lt_of_mem_enabledList conforms options)
      (realizes.tagged conforms wellFormed options) _
  rw [(realizes.tame conforms memory policy options).next_eq ⟨x, rfl⟩, kept]
  refine realizes.execute_eq policy fun t member => ?_
  exact realizes.mem_enabledList.mp (List.mem_of_mem_filter member)

/-- **A reduced graph walks the restriction to what is kept.** -/
theorem walks_base :
    (sem.restrict fun x t =>
      ((i.newReducer options).baseMembers (i.enabledList (image x))).has t = true).Walks
        (i.reducedGraph policy options) image start where
  starts := realizes.starts
  expands := by
    intro x _
    refine ⟨_, realizes.next_base conforms memory wellFormed policy method x, fun t => ?_⟩
    rw [List.mem_filter, realizes.mem_enabledList]
    exact Iff.rfl

/-- Where what is kept is covered, it also walks the restriction to what the rules of stubborn sets
make of it. -/
theorem walks_grown (covered : ∀ state, Reachable (i.reducedGraph policy options) state →
      (i.newReducer options).Covers (i.enabledList state)
        ((i.reducedGraph policy options).oracle state)) :
    (sem.restrict fun x t => ((i.newReducer options).grownBase (i.enabledList (image x))
      ((i.reducedGraph policy options).oracle (image x))).has t = true).Walks
        (i.reducedGraph policy options) image start where
  starts := realizes.starts
  expands := by
    intro x reachable
    refine ⟨_, realizes.next_base conforms memory wellFormed policy method x, fun t => ?_⟩
    show _ ↔ sem.enabled x t ∧ _
    rw [List.mem_filter, ← realizes.mem_enabledList]
    refine and_congr_right fun member => ⟨fun has => ?_, covered _ reachable t member⟩
    exact has_closureOf_of_seed (List.mem_filter.mpr ⟨member, has⟩)
      (realizes.lt_of_mem_enabledList conforms options t member)

/-- **The deadlocks of the reduced graph are deadlocks.** -/
theorem deadlock_of_base {state : Image}
    (reachable : Reachable (i.reducedGraph policy options) state)
    (dead : next (i.reducedGraph policy options) state = .ok []) :
    Reachable (Interpreted.full i policy) state ∧
      next (Interpreted.full i policy) state = .ok [] := by
  have walks := realizes.walks_full policy
  have walks' := realizes.walks_base conforms memory wellFormed policy method
  obtain ⟨x, ts, run, rfl⟩ := walks'.reachable_iff.mp reachable
  rw [walks'.next_eq_nil_iff reachable] at dead
  have reachable' := walks.reachable_of_reduced walks' reachable
  refine ⟨reachable', (walks.next_eq_nil_iff reachable').mpr fun t enabled => ?_⟩
  obtain ⟨u, uEnabled, has⟩ := realizes.exists_kept conforms wellFormed options enabled
  exact dead u ⟨uEnabled, has⟩

/-- **All deadlocks are left where what is kept is covered.** -/
theorem deadlock_iff_of_covered
    (covered : ∀ state, Reachable (i.reducedGraph policy options) state →
      (i.newReducer options).Covers (i.enabledList state)
        ((i.reducedGraph policy options).oracle state)) {state : Image} :
    (Reachable (i.reducedGraph policy options) state ∧
        next (i.reducedGraph policy options) state = .ok []) ↔
      (Reachable (Interpreted.full i policy) state ∧
        next (Interpreted.full i policy) state = .ok []) := by
  refine (realizes.walks_full policy).deadlock_iff
    (realizes.walks_grown conforms memory wellFormed policy method covered) (fun x => ?_)
    fun x _ _ t enabled => ?_
  · refine conforms.stubborn_of_closed wellFormed ?_
    exact Reducer.closed_closureOf_demands conforms wellFormed options
      (fun _ => realizes.mem_enabledList) (realizes.truthful policy options x) _
  · obtain ⟨u, uEnabled, has⟩ := realizes.exists_kept conforms wellFormed options enabled
    have member := realizes.mem_enabledList.mpr uEnabled
    exact ⟨u, uEnabled, has_closureOf_of_seed (List.mem_filter.mpr ⟨member, has⟩)
      (realizes.lt_of_mem_enabledList conforms options u member)⟩

/-! ### Whole searches -/

variable (finite : {x | ∃ ts, sem.Run start ts x}.Finite) {bound : Nat}
  (enough : {x | ∃ ts, sem.Run start ts x}.ncard ≤ bound)

include finite enough

omit conforms memory wellFormed method in
/-- **The full search succeeds.** -/
theorem exists_explore_full :
    ∃ outcome report, explore bound (Interpreted.full i policy) {} (fun _ _ => false)
        = some outcome ∧
      outcome.result = .ok report ∧ report.Exact (Interpreted.full i policy) := by
  have walks := realizes.walks_full policy
  have functional := Interpreted.functional_full i policy
  have apart : Search.Apart (Reachable (Interpreted.full i policy)) := by
    refine realizes.apart fun state reachable => ?_
    obtain ⟨x, _, _, same⟩ := walks.reachable_iff.mp reachable
    exact ⟨x, same⟩
  obtain ⟨finite', few⟩ := walks.finite_reachable finite
  obtain ⟨outcome, ends⟩ := explore_ends functional.steady apart finite'
  have explored := ends bound (few.trans enough)
  obtain ⟨report, succeeded, exact⟩ :=
    walks.exists_exact (verdict_of_explore functional apart explored)
  exact ⟨outcome, report, explored, succeeded, exact⟩

/-- **The reduced search succeeds** if the statistics have room for its states. -/
theorem exists_explore_base :
    ∃ outcome, explore bound (i.reducedGraph policy options) {} (fun _ _ => false)
        = some outcome ∧
      (i.Countable outcome.looked → ∃ report, outcome.result = .ok report ∧
        report.Exact (i.reducedGraph policy options)) := by
  have walks := realizes.walks_base conforms memory wellFormed policy method
  have states : ∀ state, Reachable (i.reducedGraph policy options) state →
      ∃ x, state = image x := by
    intro state reachable
    obtain ⟨x, _, _, same⟩ := walks.reachable_iff.mp reachable
    exact ⟨x, same⟩
  have begins : ∀ state, i.initialImage = .ok state → ∃ x, state = image x := by
    intro state begins
    rw [realizes.starts, Except.ok.injEq] at begins
    exact ⟨start, begins.symm⟩
  have closed : ∀ state targets, (∃ x, state = image x) →
      next (i.reducedGraph policy options) state = .ok targets →
      ∀ target ∈ targets, ∃ x, target = image x := by
    rintro _ targets ⟨x, rfl⟩ expands target member
    rw [realizes.next_base conforms memory wellFormed policy method, Except.ok.injEq] at expands
    rw [← expands] at member
    obtain ⟨t, _, same⟩ := List.mem_map.mp member
    exact ⟨sem.fire x t, same.symm⟩
  -- its states are among those of the full graph
  have fewer : {state | Reachable (i.reducedGraph policy options) state}
      ⊆ {state | Reachable (Interpreted.full i policy) state} :=
    fun _ reachable => (realizes.walks_full policy).reachable_of_reduced walks reachable
  obtain ⟨finite', few⟩ := (realizes.walks_full policy).finite_reachable finite
  have few' := (Set.ncard_le_ncard fewer finite').trans (few.trans enough)
  obtain ⟨outcome, explored, _, settled⟩ :=
    (realizes.tame conforms memory policy options).exists_explore begins closed
      (realizes.apart states) (finite'.subset fewer) few'
  refine ⟨outcome, explored, fun countable => walks.exists_exact (settled.resolve_left ?_)⟩
  rintro ⟨_, crowded⟩
  exact crowded countable

end Reduced

end Interpreter.Realizes

/-- No more states are met than there are. -/
theorem Semantics.ncard_run_le_card [Fintype State] (sem : Semantics State Value) (start : State) :
    {x | ∃ ts, sem.Run start ts x}.ncard ≤ Fintype.card State := by
  rw [← Nat.card_eq_fintype_card, ← Set.ncard_univ]
  exact Set.ncard_le_ncard (Set.subset_univ _)

/-! ### Tables -/

namespace Table

/-- **What a table lists of a state of a semantics**, for so many transitions and guards. -/
def listing (sem : Semantics State Value) (enabled : State → Nat → Bool)
    (bytes : State → List UInt8) (transitions guards : Nat) (x : State) : Entry where
  image := bytes x
  enabled := (List.range transitions).filter (enabled x)
  guards := (List.range guards).map fun g => some (sem.holds x g)
  steps := ((List.range transitions).filter (enabled x)).map fun t =>
    ⟨t, .successor (bytes (sem.fire x t)) ⟨t, 0⟩⟩
  accepting := false

/-- Each enabled transition is listed with one step. -/
theorem events_listing {sem : Semantics State Value} {enabled : State → Nat → Bool}
    {bytes : State → List UInt8} {transitions guards t : Nat} {x : State} (inside : t < transitions)
    (fires : enabled x t = true) :
    events (listing sem enabled bytes transitions guards x) [t]
      = [.ok (.successor (bytes (sem.fire x t)) ⟨t, 0⟩)] := by
  have alone : (List.range transitions).filter (fun u => u == t && enabled x u) = [t] := by
    have only : ∀ u ∈ List.range transitions, (u == t && enabled x u) = (u == t) := by
      intro u _
      by_cases same : u = t
      · simp [same, fires]
      · simp [same]
    rw [List.filter_congr only, List.filter_beq,
      List.count_eq_one_of_mem List.nodup_range (List.mem_range.mpr inside)]
    rfl
  simp [events, listing, List.filter_map, Function.comp_def, alone]

/-- **A table that lists all states of a semantics realizes it.** -/
theorem realizes_of_listed {table : Table} {sem : Semantics State Value} {start : State}
    {enabled : State → Nat → Bool} {bytes : State → List UInt8} {transitions guards : Nat}
    (starts : table.initial = some (bytes start)) (whole : table.stateSize = none)
    (size : ∀ x y, (bytes x).length = (bytes y).length)
    (tells : ∀ x t, sem.enabled x t ↔ t < transitions ∧ enabled x t = true)
    (listed : ∀ x,
      table.entry? (bytes x) = some (listing sem enabled bytes transitions guards x)) :
    table.interpreter.Realizes sem (fun x => .ofBytes (bytes x)) start := by
  have image : ∀ raw, table.interpreter.image raw = .ofBytes raw := by
    intro raw
    have kept : table.interpreter.stateSize raw = raw.length := by
      show table.stateSize.getD raw.length = raw.length
      rw [whole]
      rfl
    rw [Interpreter.image, kept, List.take_length]
  have report : ∀ x ts, table.interpreter.report (bytes x) ts
      = events (listing sem enabled bytes transitions guards x) ts := by
    intro x ts
    show Option.getD _ _ = _
    rw [listed]
    rfl
  refine { starts := ?_, size := size, enabled := fun x => ?_, report := fun x ts => ?_,
           fires := fun {x t} fires => ?_, guards := fun x g => ?_ }
  · have raw : table.interpreter.initial = .pure (.ok (some (bytes start))) := by
      rw [← starts]
      rfl
    rw [Interpreter.initialImage, raw]
    exact congrArg Except.ok (image _)
  · refine ⟨(List.range transitions).filter (enabled x), ?_, ?_, fun t => ?_⟩
    · show Except.ok _ = _
      rw [Image.ofBytes, listed]
      rfl
    · exact List.pairwise_lt_range.filter _
    · rw [List.mem_filter, List.mem_range, tells]
  · simp only [Image.ofBytes, report, events]
    simp
  · obtain ⟨inside, fires⟩ := (tells x t).mp fires
    exact ⟨_, _, (report x [t]).trans (events_listing inside fires), image _⟩
  · show Except.ok _ = _ ∨ Except.ok _ = _
    rw [Image.ofBytes, listed]
    by_cases inside : g < guards
    · exact .inr (by simp [listing, inside])
    · exact .inl (by simp [listing, inside])

end Table

namespace Interpreter

variable {i : Interpreter} {sem : Semantics State Value} {image : State → Image} {start : State}

/-- **The method `base` and deadlocks.** Take an interpreter that realizes a semantics, which keeps
to the footprints that the interpreter declares and has finitely many reachable states. If the
description can be analysed, the full search succeeds, and so does the one of the method `base` if
the statistics have room for its states. Each reports no deadlock twice, and what the latter
reports the former reports too. The two report the same deadlocks if what is kept is covered in all
states that the latter reaches, and in any case if transitions of a common process count as
interfering. -/
theorem explore_base_deadlocks (realizes : i.Realizes sem image start)
    (conforms : sem.Conforms i.system) {a : Analysis}
    (analysed : Analysis.ofSystem i.system = .ok a)
    (finite : {x | ∃ ts, sem.Run start ts x}.Finite) {bound : Nat}
    (enough : {x | ∃ ts, sem.Run start ts x}.ncard ≤ bound) (policy : Policy) {options : Options}
    (method : options.method = .base) :
    ∃ graph outcome outcome' report, Interpreted.reduced i policy options = .ok graph ∧
      explore bound (Interpreted.full i policy) {} (fun _ _ => false) = some outcome ∧
      outcome.result = .ok report ∧ report.deadlocks.toList.Nodup ∧
      explore bound graph {} (fun _ _ => false) = some outcome' ∧
      (i.Countable outcome'.looked → ∃ report', outcome'.result = .ok report' ∧
        report'.deadlocks.toList.Nodup ∧
        (∀ state ∈ report'.deadlocks.toList, state ∈ report.deadlocks.toList) ∧
        ((∀ state, Reachable graph state → (Reducer.ofAnalysis a options).Covers
            (i.enabledList state) (graph.oracle state)) →
          ∀ state, state ∈ report'.deadlocks.toList ↔ state ∈ report.deadlocks.toList) ∧
        (options.processLocal = true →
          ∀ state, state ∈ report'.deadlocks.toList ↔ state ∈ report.deadlocks.toList)) := by
  obtain ⟨memory, wellFormed, rfl⟩ := Analysis.ofSystem_eq_ok_iff.mp analysed
  have reduced : Interpreted.reduced i policy options = .ok (i.reducedGraph policy options) := by
    unfold Interpreted.reduced Reducer.ofSystem
    rw [analysed]
    rfl
  obtain ⟨outcome, report, explored, succeeded, exact⟩ :=
    realizes.exists_explore_full policy finite enough
  obtain ⟨outcome', ended, settled⟩ :=
    realizes.exists_explore_base conforms memory wellFormed policy method finite enough
  refine ⟨_, outcome, outcome', report, reduced, explored, succeeded, exact.nodup_deadlocks, ended,
    fun countable => ?_⟩
  obtain ⟨report', succeeded', exact'⟩ := settled countable
  have agree : (∀ state, Reachable (i.reducedGraph policy options) state →
        (i.newReducer options).Covers (i.enabledList state)
          ((i.reducedGraph policy options).oracle state)) →
      ∀ state, state ∈ report'.deadlocks.toList ↔ state ∈ report.deadlocks.toList := by
    intro covered state
    rw [exact'.mem_deadlocks, exact.mem_deadlocks]
    exact realizes.deadlock_iff_of_covered conforms memory wellFormed policy method covered
  refine ⟨report', succeeded', exact'.nodup_deadlocks, fun state member => ?_, agree,
    fun processLocal => agree fun state reachable t member _ => ?_⟩
  · obtain ⟨reachable, dead⟩ := (exact'.mem_deadlocks state).mp member
    exact (exact.mem_deadlocks state).mpr
      (realizes.deadlock_of_base conforms memory wellFormed policy method reachable dead)
  · -- nothing is left out at all
    obtain ⟨x, _, _, rfl⟩ :=
      (realizes.walks_base conforms memory wellFormed policy method).reachable_iff.mp reachable
    exact realizes.has_baseMembers conforms wellFormed processLocal member

/-! ### Overtaking -/

/-- One process with two registers. The first one can be set once, to one or, if the second one is
set, to two. -/
def overtakingSystem : TransitionSystem where
  variableCount := 2
  processCount := 1
  transitions := #[⟨"set first", [0], [], [0], [0]⟩, ⟨"set second", [0], [], [1], [1]⟩,
    ⟨"overtake", [0], [], [0], [0, 2]⟩]
  guards := #[⟨[0], none⟩, ⟨[1], none⟩, ⟨[1], none⟩]
  exclusiveGuards := []

/-- Its guards: the first is not set, the second is not set, the second is set. -/
def overtakingHolds (x : Fin 3 × Fin 2) (g : Nat) : Bool :=
  if g = 0 then x.1 = 0 else if g = 1 then x.2 = 0 else x.2 = 1

def overtakingEnabled (x : Fin 3 × Fin 2) (t : Nat) : Bool :=
  if t = 0 then x.1 = 0 else if t = 1 then x.2 = 0 else t = 2 && x.1 = 0 && x.2 = 1

def overtakingSemantics : Semantics (Fin 3 × Fin 2) Nat where
  value x v := if v = 0 then x.1.val else x.2.val
  holds := overtakingHolds
  enabled x t := overtakingEnabled x t = true
  fire x t := if t = 0 then (1, x.2) else if t = 1 then (x.1, 1) else (2, x.2)

theorem lt_of_overtakingEnabled {x : Fin 3 × Fin 2} {t : Nat}
    (enabled : overtakingEnabled x t = true) : t < 3 := by
  match t with
  | 0 | 1 | 2 => decide
  | t + 3 => simp [overtakingEnabled] at enabled

theorem overtaking_hasGuard {t g : Nat} :
    overtakingSystem.HasGuard t g ↔
      t = 0 ∧ g = 0 ∨ t = 1 ∧ g = 1 ∨ t = 2 ∧ (g = 0 ∨ g = 2) := by
  unfold TransitionSystem.HasGuard
  match t with
  | 0 | 1 | 2 => simp [overtakingSystem]
  | t + 3 => simp [overtakingSystem]

theorem overtaking_guardReads {g v : Nat} :
    overtakingSystem.GuardReads g v ↔ g < 3 ∧ v = (g + 1) / 2 := by
  unfold TransitionSystem.GuardReads
  match g with
  | 0 | 1 | 2 => simp [overtakingSystem]
  | g + 3 => simp [overtakingSystem]

theorem overtaking_writes {t v : Nat} :
    overtakingSystem.Writes t v ↔ t < 3 ∧ v = t % 2 := by
  unfold TransitionSystem.Writes
  match t with
  | 0 | 1 | 2 => simp [overtakingSystem]
  | t + 3 => simp [overtakingSystem]

theorem overtaking_conforms : overtakingSemantics.Conforms overtakingSystem where
  ext same := Prod.ext (Fin.ext (same 0 (by decide))) (Fin.ext (same 1 (by decide)))
  enabled_iff {x t} := by
    simp only [overtaking_hasGuard, overtakingSemantics, overtakingEnabled, overtakingHolds]
    match t with
    | 0 | 1 | 2 => simp [overtakingSystem]
    | t + 3 => simp [overtakingSystem]
  holds_congr {x y g} known same := by
    have known : g < 3 := known
    simp only [overtakingSemantics, overtakingHolds]
    match g with
    | 0 =>
      have read : x.1 = y.1 := Fin.ext (same 0 (overtaking_guardReads.mpr ⟨known, rfl⟩))
      simp [read]
    | 1 | 2 =>
      have read : x.2 = y.2 := Fin.ext (same 1 (overtaking_guardReads.mpr ⟨known, rfl⟩))
      simp [read]
  frame {x t v} enabled inside unwritten := by
    have inside : v < 2 := inside
    have known := lt_of_overtakingEnabled enabled
    have other : v ≠ t % 2 := fun same => unwritten (overtaking_writes.mpr ⟨known, same⟩)
    simp only [overtakingSemantics]
    match t, v with
    | 0, 1 | 1, 0 | 2, 1 => simp
    | 0, 0 | 1, 1 | 2, 0 => simp at other
  fire_congr {x y t v} _ _ _ writes := by
    obtain ⟨inside, rfl⟩ := overtaking_writes.mp writes
    simp only [overtakingSemantics]
    match t with
    | 0 | 1 | 2 => simp
  exclusive declared := by simp [overtakingSystem] at declared
  enablers {x t g guard listed} found declared := by
    match g with
    | 0 | 1 | 2 =>
      simp [overtakingSystem] at found
      simp [← found] at declared
    | g + 3 => simp [overtakingSystem] at found

def overtakingBytes (x : Fin 3 × Fin 2) : List UInt8 :=
  [.ofNat x.1.val, .ofNat x.2.val]

def overtakingImage (x : Fin 3 × Fin 2) : Image :=
  .ofBytes (overtakingBytes x)

/-- The table of the two registers. -/
def overtaking : Table where
  system := overtakingSystem
  initial := some [0, 0]
  stateSize := none
  ignoresStop := false
  entries := [(0, 0), (1, 0), (0, 1), (1, 1), (2, 0), (2, 1)].map
    (Table.listing overtakingSemantics overtakingEnabled overtakingBytes 3 3)

theorem overtaking_realizes :
    overtaking.interpreter.Realizes overtakingSemantics overtakingImage (0, 0) := by
  have listed : ∀ x, overtaking.entry? (overtakingBytes x)
      = some (Table.listing overtakingSemantics overtakingEnabled overtakingBytes 3 3 x) := by
    rintro ⟨first, second⟩
    match first, second with
    | 0, 0 | 0, 1 | 1, 0 | 1, 1 | 2, 0 | 2, 1 => rfl
  exact Table.realizes_of_listed rfl rfl (fun _ _ => rfl)
    (fun _ _ => (and_iff_right_of_imp lt_of_overtakingEnabled).symm) listed

theorem overtaking_ofSystem :
    Analysis.ofSystem overtakingSystem = .ok (Analysis.ofValid overtakingSystem) := by
  rfl

def overtakingReport : Report :=
  { states := 5, transitions := 5, deadlocks := #[.ofBytes [1, 1], .ofBytes [2, 1]] }

theorem explore_full_overtaking (policy : Policy) :
    (explore 6 (Interpreted.full overtaking.interpreter policy) {} (fun _ _ => false)).map
      Outcome.result = some (.ok overtakingReport) := by
  cases policy <;> rfl

theorem explore_base_overtaking (policy : Policy) :
    Interpreted.findings overtaking.interpreter policy ⟨.base, false⟩ 6
      = some (.ok { states := 3, transitions := 2, deadlocks := #[.ofBytes [1, 1]] },
          [.ofBytes [0, 0], .ofBytes [1, 0], .ofBytes [1, 1]]) := by
  cases policy <;> decide +kernel

theorem overtaking_few : {x | ∃ ts, overtakingSemantics.Run (0, 0) ts x}.ncard ≤ 6 :=
  overtakingSemantics.ncard_run_le_card (0, 0)

/-- **A deadlock that is missed.** While neither register is set, setting the first one is all that
is kept: setting the second one commutes with it and belongs to the same process. But setting the
second one first enables overtaking, which the method does not look at before it is enabled. -/
theorem overtaking_missed :
    overtaking.interpreter.Realizes overtakingSemantics overtakingImage (0, 0) ∧
      overtakingSemantics.Conforms overtaking.interpreter.system ∧
      Analysis.ofSystem overtaking.interpreter.system = .ok (Analysis.ofValid overtakingSystem) ∧
      {x | ∃ ts, overtakingSemantics.Run (0, 0) ts x}.ncard ≤ 6 ∧
      ∀ policy,
        (∃ outcome report, explore 6 (Interpreted.full overtaking.interpreter policy) {}
            (fun _ _ => false) = some outcome ∧
          outcome.result = .ok report ∧
          report.deadlocks.toList = [.ofBytes [1, 1], .ofBytes [2, 1]]) ∧
        ∃ graph outcome report,
          Interpreted.reduced overtaking.interpreter policy ⟨.base, false⟩ = .ok graph ∧
          explore 6 graph {} (fun _ _ => false) = some outcome ∧
          outcome.result = .ok report ∧ report.deadlocks.toList = [.ofBytes [1, 1]] := by
  refine ⟨overtaking_realizes, overtaking_conforms, overtaking_ofSystem, overtaking_few,
    fun policy => ⟨?_, ?_⟩⟩
  · obtain ⟨outcome, explored, succeeded⟩ :=
      Option.map_eq_some_iff.mp (explore_full_overtaking policy)
    exact ⟨outcome, _, explored, succeeded, rfl⟩
  · obtain ⟨graph, outcome, reduced, explored, found⟩ :=
      Interpreted.findings_eq_some_iff.mp (explore_base_overtaking policy)
    exact ⟨graph, outcome, _, reduced, explored, (Prod.mk.inj found).1, rfl⟩

/-! ### Switches -/

/-- One process with two switches, each of which can be turned on once. -/
def switchesSystem : TransitionSystem where
  variableCount := 2
  processCount := 1
  transitions := #[⟨"turn on first", [0], [], [0], [0]⟩, ⟨"turn on second", [0], [], [1], [1]⟩]
  guards := #[⟨[0], none⟩, ⟨[1], none⟩]
  exclusiveGuards := []

def switchesValue (x : Bool × Bool) (v : Nat) : Bool :=
  if v = 0 then x.1 else x.2

/-- A guard holds while the switch is off. -/
def switchesSemantics : Semantics (Bool × Bool) Bool where
  value := switchesValue
  holds x g := !switchesValue x g
  enabled x t := t < 2 ∧ (!switchesValue x t) = true
  fire x t := if t = 0 then (true, x.2) else (x.1, true)

theorem switches_hasGuard {t g : Nat} : switchesSystem.HasGuard t g ↔ t < 2 ∧ g = t := by
  unfold TransitionSystem.HasGuard
  match t with
  | 0 | 1 | t + 2 => simp [switchesSystem]

theorem switches_guardReads {g v : Nat} : switchesSystem.GuardReads g v ↔ g < 2 ∧ v = g := by
  unfold TransitionSystem.GuardReads
  match g with
  | 0 | 1 | g + 2 => simp [switchesSystem]

theorem switches_writes {t v : Nat} : switchesSystem.Writes t v ↔ t < 2 ∧ v = t := by
  unfold TransitionSystem.Writes
  match t with
  | 0 | 1 | t + 2 => simp [switchesSystem]

theorem switches_conforms : switchesSemantics.Conforms switchesSystem where
  ext same := Prod.ext (same 0 (by decide)) (same 1 (by decide))
  enabled_iff {x t} := by
    simp only [switches_hasGuard]
    constructor
    · rintro ⟨inside, off⟩
      exact ⟨inside, fun g own => own.2 ▸ off⟩
    · rintro ⟨inside, holds⟩
      exact ⟨inside, holds t ⟨inside, rfl⟩⟩
  holds_congr {x y g} known same := congrArg not (same g (switches_guardReads.mpr ⟨known, rfl⟩))
  frame {x t v} enabled inside unwritten := by
    have inside : v < 2 := inside
    have known := enabled.1
    have other : v ≠ t := fun same => unwritten (switches_writes.mpr ⟨known, same⟩)
    match t, v with
    | 0, 1 | 1, 0 => rfl
    | 0, 0 | 1, 1 => exact absurd rfl other
  fire_congr {x y t v} _ _ _ writes := by
    obtain ⟨inside, rfl⟩ := switches_writes.mp writes
    match v with
    | 0 | 1 => rfl
  exclusive declared := by simp [switchesSystem] at declared
  enablers {x t g guard listed} found declared := by
    match g with
    | 0 | 1 =>
      simp [switchesSystem] at found
      simp [← found] at declared
    | g + 2 => simp [switchesSystem] at found

def switchesBytes (x : Bool × Bool) : List UInt8 :=
  [if x.1 then 1 else 0, if x.2 then 1 else 0]

/-- The table of the two switches. -/
def switches : Table where
  system := switchesSystem
  initial := some [0, 0]
  stateSize := none
  ignoresStop := false
  entries := [(false, false), (true, false), (false, true), (true, true)].map
    (Table.listing switchesSemantics (fun x t => !switchesValue x t) switchesBytes 2 2)

theorem switches_realizes :
    switches.interpreter.Realizes switchesSemantics (fun x => .ofBytes (switchesBytes x))
      (false, false) := by
  have listed : ∀ x, switches.entry? (switchesBytes x) = some
      (Table.listing switchesSemantics (fun x t => !switchesValue x t) switchesBytes 2 2 x) := by
    rintro ⟨first, second⟩
    match first, second with
    | false, false | false, true | true, false | true, true => rfl
  exact Table.realizes_of_listed rfl rfl (fun _ _ => rfl) (fun _ _ => Iff.rfl) listed

theorem switches_ofSystem :
    Analysis.ofSystem switchesSystem = .ok (Analysis.ofValid switchesSystem) := by
  rfl

theorem switches_few : {x | ∃ ts, switchesSemantics.Run (false, false) ts x}.ncard ≤ 4 :=
  switchesSemantics.ncard_run_le_card (false, false)

def switchesGraph : Interpreted :=
  switches.interpreter.reducedGraph .strict ⟨.base, false⟩

def switchesStates : List Image :=
  [.ofBytes [0, 0], .ofBytes [1, 0], .ofBytes [1, 1]]

/-- **The second switch is left out while both are off**, and what is kept is covered all along. -/
theorem switchesGraph_states :
    switchesGraph.LeavesOut 1 (.ofBytes [0, 0]) ∧
      (explore 4 switchesGraph {} (fun _ _ => false)).map Outcome.looked = some switchesStates ∧
      ∀ state ∈ switchesStates, (∀ target ∈ outgoing switchesGraph state, target ∈ switchesStates) ∧
        (switches.interpreter.newReducer ⟨.base, false⟩).Covers
          (switches.interpreter.enabledList state) (switchesGraph.oracle state) := by
  decide +kernel

theorem explore_full_switches :
    (explore 4 (Interpreted.full switches.interpreter .strict) {} (fun _ _ => false)).map
      Outcome.result
        = some (.ok { states := 4, transitions := 4, deadlocks := #[.ofBytes [1, 1]] }) := by
  rfl

/-- If the transitions of its process count as interfering, both deadlocks of the registers are
found. If not, the one of the switches still is, although a switch is left out on the way. -/
theorem explore_base_deadlocks_cases :
    (∃ graph outcome report,
      Interpreted.reduced overtaking.interpreter .strict ⟨.base, true⟩ = .ok graph ∧
      explore 6 graph {} (fun _ _ => false) = some outcome ∧ outcome.result = .ok report ∧
      .ofBytes [1, 1] ∈ report.deadlocks.toList ∧ .ofBytes [2, 1] ∈ report.deadlocks.toList) ∧
    ∃ outcome report,
      Interpreted.reduced switches.interpreter .strict ⟨.base, false⟩ = .ok switchesGraph ∧
      switchesGraph.LeavesOut 1 (.ofBytes [0, 0]) ∧
      explore 4 switchesGraph {} (fun _ _ => false) = some outcome ∧
      outcome.result = .ok report ∧ report.deadlocks.toList = [.ofBytes [1, 1]] := by
  constructor
  · have method : (⟨.base, true⟩ : Options).method = .base := rfl
    obtain ⟨graph, outcome, outcome', report, reduced, explored, succeeded, _, ended, found⟩ :=
      explore_base_deadlocks overtaking_realizes overtaking_conforms overtaking_ofSystem
        (Set.toFinite _) overtaking_few .strict method
    have full := explore_full_overtaking .strict
    rw [explored, Option.map_some, succeeded, Option.some.injEq, Except.ok.injEq] at full
    have looked : (Interpreted.findings overtaking.interpreter .strict ⟨.base, true⟩ 6).map
        (fun found => decide (overtaking.interpreter.Countable found.2)) = some true := by
      decide +kernel
    rw [Interpreted.findings_eq_some_iff.mpr ⟨graph, outcome', reduced, ended, rfl⟩,
      Option.map_some, Option.some.injEq, decide_eq_true_iff] at looked
    obtain ⟨report', succeeded', _, _, _, agree⟩ := found looked
    have same := agree rfl
    subst full
    refine ⟨graph, outcome', report', reduced, ended, succeeded', ?_, ?_⟩
    · exact (same _).mpr List.mem_cons_self
    · exact (same _).mpr (List.mem_cons_of_mem _ List.mem_cons_self)
  · have method : (⟨.base, false⟩ : Options).method = .base := rfl
    obtain ⟨leftOut, looked, states⟩ := switchesGraph_states
    obtain ⟨graph, outcome, outcome', report, reduced, explored, succeeded, _, ended, found⟩ :=
      explore_base_deadlocks switches_realizes switches_conforms switches_ofSystem
        (Set.toFinite _) switches_few .strict method
    have built : Interpreted.reduced switches.interpreter .strict ⟨.base, false⟩
      = .ok switchesGraph := rfl
    obtain rfl := Except.ok.inj (built.symm.trans reduced)
    have full := explore_full_switches
    rw [explored, Option.map_some, succeeded, Option.some.injEq, Except.ok.injEq] at full
    rw [ended, Option.map_some, Option.some.injEq] at looked
    have countable : switches.interpreter.Countable outcome'.looked := by
      rw [looked]
      decide
    obtain ⟨report', succeeded', nodup, _, agree, _⟩ := found countable
    have starts : Explorable.initial switchesGraph = .ok (.ofBytes [0, 0]) := rfl
    have same := agree fun state reachable =>
      (states state (reachable.mem_of_closed starts (by decide)
        fun state known => (states state known).1)).2
    subst full
    refine ⟨outcome', report', built, leftOut, ended, succeeded', ?_⟩
    have only : report'.deadlocks.toList.Perm [.ofBytes [1, 1]] :=
      (List.perm_ext_iff_of_nodup nodup (by decide)).mpr same
    exact List.perm_singleton.mp only

end Interpreter

end StateSpace

/-
**A reduction, access by access.**

The flags of a set of transitions stand in an array with one place for each transition, and the
relations are read row by row. Here each of these accesses is checked, and one past the end breaks
off the call:

* `Members.mark`, `admitByIndex`, `closureByIndex` — the closure of a set of numbers. The loop
  breaks off if what a member asks for has no place in the array.
* `Reducer.baseByIndex`, `Reducer.stubbornByIndex`, `Reducer.flagsByIndex` — the two methods and the
  flags of an enabled list.

Nothing breaks off, since all the numbers that are met are transitions of the system:

* `Reducer.Indexable` — why: each transition has its lists and rows, each guard of a transition has
  a row, and no row leads out of the system. `Reducer.indexable_of_ofSystem` is about a reducer that
  is made for a description.
* `closureByIndex_eq` — the worklist stays within the array.
* `Reducer.Indexable.flagsByIndex_eq` — the flags are those of `Reducer.flags`.
-/

import StateSpace.Proofs.Analysis.Canonical
import StateSpace.Proofs.Analysis.Passes
import StateSpace.Proofs.Lists
import StateSpace.Proofs.Reduction.Answers
import StateSpace.Proofs.Reduction.Worklist

namespace StateSpace

open Analysis (elementAt)

theorem elementAt_eq_getD {α : Type} {elements : Array α} {position : Nat} (other : α)
    (inside : position < elements.size) :
    elementAt elements position = .ok (elements.getD position other) := by
  rw [elementAt, Array.getD_eq_getD_getElem?, Array.getElem?_eq_getElem inside]
  rfl

/-- The value of a cell, whose word is looked up in the array of words. -/
def BitMatrix.cellAt (m : BitMatrix) (row col : Nat) : Except Abort Bool :=
  if row < m.rows ∧ col < m.cols then do
    let word ← elementAt m.words (row * m.stride + col / 64)
    return testBit word (col % 64)
  else .ok false

/-- The word of a cell inside a matrix is one of its words. -/
theorem BitMatrix.cellAt_eq (m : BitMatrix) (row col : Nat) :
    m.cellAt row col = .ok (m.get row col) := by
  unfold cellAt get
  by_cases inside : row < m.rows ∧ col < m.cols
  · have place : row * m.stride + col / 64 < m.words.size := by
      rw [m.size_words]
      have column : col / 64 < m.stride := by
        unfold stride wordsPerRow
        omega
      calc row * m.stride + col / 64 < row * m.stride + m.stride := by omega
        _ = (row + 1) * m.stride := by rw [Nat.succ_mul]
        _ ≤ m.rows * m.stride := Nat.mul_le_mul_right _ inside.1
    rw [if_pos inside, elementAt_eq_getD 0 place, decide_eq_true inside.1, decide_eq_true inside.2]
    rfl
  · rw [if_neg inside]
    by_cases rowInside : row < m.rows
    · have beyond : ¬ col < m.cols := fun colInside => inside ⟨rowInside, colInside⟩
      rw [decide_eq_false beyond, Bool.and_false]
      rfl
    · rw [decide_eq_false rowInside]
      rfl

/-! ### Closing a set of numbers -/

namespace Members

/-- Makes a number a member; past the end the call breaks off. -/
def mark (members : Members) (number : Nat) : Except Abort Members :=
  if number < members.size then .ok (members.setIfInBounds number true) else .error .outOfRange

variable {members : Members} {number : Nat}

theorem mark_eq (inside : number < members.size) :
    members.mark number = .ok (members.setIfInBounds number true) :=
  if_pos inside

theorem elementAt_eq (inside : number < members.size) :
    elementAt members number = .ok (members.has number) :=
  elementAt_eq_getD false inside

theorem getElem?_eq_some_false (inside : number < members.size)
    (absent : ¬ members.has number = true) : members[number]? = some false := by
  rw [Members.has, Array.getD_eq_getD_getElem?, Array.getElem?_eq_getElem inside,
    Option.getD_some, Bool.not_eq_true] at absent
  rw [Array.getElem?_eq_getElem inside, absent]

theorem size_ofList (bound : Nat) (numbers : List Nat) : (ofList bound numbers).size = bound := by
  suffices keeps : ∀ members : Members,
      (numbers.foldl (fun m n => m.setIfInBounds n true) members).size = members.size by
    rw [ofList, keeps, Array.size_replicate]
  induction numbers with
  | nil => exact fun _ => rfl
  | cons first rest ih =>
    intro members
    rw [List.foldl_cons, ih, Array.size_setIfInBounds]

end Members

/-- A number that is not a member yet becomes one with work to do. -/
theorem admitNew_of_absent {state : Members × List Nat} {number : Nat}
    (inside : number < state.1.size) (absent : ¬ state.1.has number = true) :
    admitNew state number = (state.1.setIfInBounds number true, number :: state.2) :=
  if_pos (Members.getElem?_eq_some_false inside absent)

theorem admitNew_of_has {state : Members × List Nat} {number : Nat}
    (has : state.1.has number = true) : admitNew state number = state := by
  refine if_neg fun absent => ?_
  rw [Members.has, Array.getD_eq_getD_getElem?, absent] at has
  cases has

/-- Makes a number that passes a test, and is not a member yet, a member with work to do. -/
def admitByIndex (eligible : Nat → Except Abort Bool) (state : Members × List Nat) (number : Nat) :
    Except Abort (Members × List Nat) := do
  if ← eligible number then
    if ← elementAt state.1 number then return state
    else return (← state.1.mark number, number :: state.2)
  else return state

section

variable {eligible : Nat → Except Abort Bool} {state next : Members × List Nat} {number : Nat}
  {numbers : List Nat} {keep : Nat → Bool}

/-- **A number below the bound is admitted** if it passes the test. -/
theorem admitByIndex_eq {passed : Bool} (passes : eligible number = .ok passed)
    (inside : number < state.1.size) :
    admitByIndex eligible state number
      = .ok (if passed then admitNew state number else state) := by
  unfold admitByIndex
  rw [passes, Members.elementAt_eq inside, Members.mark_eq inside]
  cases passed with
  | false => rfl
  | true =>
    rw [if_pos rfl]
    by_cases has : state.1.has number = true
    · rw [admitNew_of_has has, has]
      rfl
    · rw [admitNew_of_absent inside has, Bool.eq_false_of_not_eq_true has]
      rfl

/-- Whatever the test, a step that does not break off admits the number or nothing. -/
theorem admitByIndex_cases (admitted : admitByIndex eligible state number = .ok next) :
    next = state ∨ next = admitNew state number := by
  cases passes : eligible number with
  | error abort =>
    rw [admitByIndex, passes] at admitted
    cases admitted
  | ok passed =>
    by_cases inside : number < state.1.size
    · rw [admitByIndex_eq passes inside] at admitted
      cases passed with
      | false => exact .inl (Except.ok.inj admitted).symm
      | true => exact .inr (Except.ok.inj admitted).symm
    · cases passed with
      | false =>
        rw [admitByIndex, passes] at admitted
        exact .inl (Except.ok.inj admitted).symm
      | true =>
        have beyond : elementAt state.1 number = .error .outOfRange := by
          rw [elementAt, Array.getElem?_eq_none (Nat.le_of_not_lt inside)]
        rw [admitByIndex, passes, beyond] at admitted
        cases admitted

/-- A number that becomes a member is put on the worklist. -/
theorem foldlM_admitByIndex_measure
    (admitted : numbers.foldlM (admitByIndex eligible) state = .ok next) :
    next.1.count false + next.2.length = state.1.count false + state.2.length := by
  induction numbers generalizing state with
  | nil =>
    obtain rfl := Except.ok.inj admitted
    rfl
  | cons first rest ih =>
    rw [List.foldlM_cons] at admitted
    cases step : admitByIndex eligible state first with
    | error abort => simp [step, bind, Except.bind] at admitted
    | ok middle =>
      rw [step] at admitted
      rw [ih admitted]
      rcases admitByIndex_cases step with rfl | rfl
      · rfl
      · exact admitNew_measure state first

/-- **Numbers below the bound are admitted** as far as they pass the test. -/
theorem foldlM_admitByIndex_eq (passes : ∀ x ∈ numbers, eligible x = .ok (keep x))
    (inside : ∀ x ∈ numbers, x < state.1.size) :
    numbers.foldlM (admitByIndex eligible) state
      = .ok ((numbers.filter keep).foldl admitNew state) := by
  induction numbers generalizing state with
  | nil => rfl
  | cons first rest ih =>
    rw [List.foldlM_cons,
      admitByIndex_eq (passes first List.mem_cons_self) (inside first List.mem_cons_self)]
    have later := fun x member => passes x (List.mem_cons_of_mem first member)
    have laterInside := fun x member => inside x (List.mem_cons_of_mem first member)
    by_cases kept : keep first = true
    · rw [if_pos kept, List.filter_cons_of_pos kept, List.foldl_cons]
      refine ih later fun x member => ?_
      rw [(admitNew_spec state first).size]
      exact laterInside x member
    · rw [if_neg kept, List.filter_cons_of_neg kept]
      exact ih later laterInside

end

/-- **Adds to some members all that the rule asks for and that passes a test**, starting from the
members with work to do. -/
def closureByIndex (step : Nat → Except Abort (List Nat)) (eligible : Nat → Except Abort Bool)
    (members : Members) (work : List Nat) : Except Abort Members :=
  match work with
  | [] => .ok members
  | number :: rest =>
    match step number with
    | .error abort => .error abort
    | .ok asked =>
      match _ : asked.foldlM (admitByIndex eligible) (members, rest) with
      | .error abort => .error abort
      | .ok grown => closureByIndex step eligible grown.1 grown.2
termination_by members.count false + work.length
decreasing_by
  have measure : _ = members.count false + rest.length := foldlM_admitByIndex_measure ‹_›
  simp only [List.length_cons]
  omega

/-- **The worklist stays within the array.** Where the rule answers for all numbers below the bound
and asks for no others, the loop ends with the closure under what passes the test. -/
theorem closureByIndex_eq {step : Nat → Except Abort (List Nat)} {asked : Nat → List Nat}
    {eligible : Nat → Except Abort Bool} {keep : Nat → Bool} {bound : Nat}
    (answers : ∀ t < bound, step t = .ok (asked t))
    (asksInside : ∀ t < bound, ∀ u ∈ asked t, u < bound)
    (passes : ∀ u < bound, eligible u = .ok (keep u)) {members : Members} {work : List Nat}
    (size : members.size = bound) (inside : ∀ t ∈ work, t < bound) :
    closureByIndex step eligible members work
      = .ok (closure (fun t => (asked t).filter keep) members work) := by
  -- the induction is on the rounds of the loop; what waits stays below the bound
  fun_induction closure (fun t => (asked t).filter keep) members work with
  | case1 members =>
    unfold closureByIndex
    rfl
  | case2 members number rest grown ih =>
    have numberInside := inside number List.mem_cons_self
    have asksHere := asksInside number numberInside
    have admits : (asked number).foldlM (admitByIndex eligible) (members, rest) = .ok grown :=
      foldlM_admitByIndex_eq (fun u member => passes u (asksHere u member)) fun u member =>
        lt_of_lt_of_eq (asksHere u member) size.symm
    have grownSize : grown.1.size = bound :=
      (foldl_admitNew_spec ((asked number).filter keep) (members, rest)).size.trans size
    have grownInside : ∀ t ∈ grown.2, t < bound := fun t waits => by
      rcases Worklist.mem_work_foldl_admitNew waits with old | ⟨_, below⟩
      · exact inside t (List.mem_cons_of_mem _ old)
      · exact lt_of_lt_of_eq below size
    unfold closureByIndex
    rw [answers number numberInside]
    dsimp only
    split
    · next abort broken =>
      rw [admits] at broken
      cases broken
    · next later admitted =>
      rw [admits] at admitted
      obtain rfl := Except.ok.inj admitted
      exact ih grownSize grownInside

namespace Reducer

/-! ### The two methods -/

/-- **The seeds of the method `base`** become members, and wait: the entries of a list that bring a
process which is not covered yet. -/
def seedByIndex (r : Reducer) (covered : List Nat) (state : Members × List Nat) :
    List Nat → Except Abort (Members × List Nat)
  | [] => .ok state
  | t :: rest => do
    let processes ← r.analysis.tags t
    if processes.all covered.contains then r.seedByIndex covered state rest
    else r.seedByIndex (processes ++ covered) (← state.1.mark t, t :: state.2) rest

/-- **The method `base`**: the seeds of the sorted list, which may repeat its entries, closed under
interference among the enabled transitions. -/
def baseByIndex (r : Reducer) (fires : Members) (enabled : List Nat) : Except Abort Members := do
  let seeded ← r.seedByIndex [] (Array.replicate fires.size false, []) enabled.mergeSort
  closureByIndex r.interference.rowColumns (elementAt fires) seeded.1 seeded.2

/-- A transition, if it is another one that is enabled and that `t` conflicts with. -/
def rivalByIndex (r : Reducer) (fires : Members) (t u : Nat) : Except Abort (List Nat) := do
  if u = t then return []
  else if ← elementAt fires u then
    if ← r.analysis.conflict.cellAt t u then return [u] else return []
  else return []

/-- **The transitions that a member asks for.** -/
def demandsByIndex (r : Reducer) (fires : Members) (holds : Oracle) (t : Nat) :
    Except Abort (List Nat) := do
  if ← elementAt fires t then
    let neighbours ← r.interference.rowColumns t
    let rivals ← (List.range fires.size).mapM (r.rivalByIndex fires t)
    return neighbours ++ rivals.flatten
  else
    let guards ← r.analysis.ownGuards t
    if guards.isEmpty then r.interference.rowColumns t
    else
      match guards.find? fun g => holds g == some false with
      | some g => r.analysis.enablingSet g
      | none =>
        let enablers ← (guards.filter fun g => holds g != some true).mapM r.analysis.enablingSet
        return enablers.flatten

/-- **The method `stubbornSet`**: a seed, closed under what members ask for. -/
def stubbornByIndex (r : Reducer) (fires : Members) (holds : Oracle) (seed : Nat) :
    Except Abort Members := do
  let members ← Members.mark (Array.replicate fires.size false) seed
  closureByIndex (r.demandsByIndex fires holds) (fun _ => .ok true) members [seed]

/-- The members for an enabled list with a least entry. -/
def membersByIndex (r : Reducer) (fires : Members) (enabled : List Nat) (holds : Oracle)
    (seed : Nat) : Except Abort Members :=
  match r.options.method with
  | .base => r.baseByIndex fires enabled
  | .stubbornSet => r.stubbornByIndex fires holds seed

/-- **One flag per entry of an enabled list**, whose entries are marked in `fires`. -/
def flagsByIndex (r : Reducer) (fires : Members) (enabled : List Nat) (holds : Oracle) :
    Except Abort (List Bool) :=
  match enabled with
  | [] => .ok []
  | [_] => .ok [true]
  | first :: rest => do
    let members ← r.membersByIndex fires enabled holds (least first rest)
    enabled.mapM (elementAt members)

/-! ### Transitions have their places -/

/-- **What is met in a reduction has its place.** Each transition has its lists and its row, each
guard of a transition has its row, and no row leads out of the system. -/
structure Indexable (r : Reducer) : Prop where
  tags : ∀ {t : Nat}, t < r.transitionCount → r.analysis.tags t = .ok (r.analysis.processesOf t)
  ownGuards : ∀ {t : Nat}, t < r.transitionCount →
    r.analysis.ownGuards t = .ok (r.analysis.guardsOf t)
  enablingSet : ∀ {t g : Nat}, g ∈ r.analysis.guardsOf t →
    r.analysis.enablingSet g = .ok (r.analysis.enablersOf g)
  neighbours : ∀ {t : Nat}, t < r.transitionCount →
    r.interference.rowColumns t = .ok (r.interference.columns t)
  lt_of_enabler : ∀ {g t : Nat}, t ∈ r.analysis.enablersOf g → t < r.transitionCount
  lt_of_neighbour : ∀ {t u : Nat}, u ∈ r.interference.columns t → u < r.transitionCount

/-- **A reducer over the analysis of a description finds everything in its place.** -/
theorem indexable_ofAnalysis {s : TransitionSystem} {a : Analysis} (reflects : a.Reflects s)
    (wellFormed : s.WellFormed) (addressable : s.Addressable) (options : Options) :
    (ofAnalysis a options).Indexable := by
  have count : a.transitionCount = s.transitions.size := reflects.transitionCount_eq
  have interference := reflects.holds_interference options.processLocal
  constructor
  · intro t inside
    show elementAt a.processes t = .ok (a.processes.getD t [])
    refine elementAt_eq_getD [] ?_
    rw [reflects.processes, Array.size_map]
    exact lt_of_lt_of_eq inside count
  · intro t inside
    show elementAt a.guards t = .ok (a.guards.getD t [])
    refine elementAt_eq_getD [] ?_
    rw [reflects.guards, Array.size_map]
    exact lt_of_lt_of_eq inside count
  · intro t g own
    show a.enabling.rowColumns g = .ok (a.enabling.columns g)
    refine reflects.enabling.rowColumns_eq addressable.enabling ?_
    have own : g ∈ a.guards.getD t [] := own
    rw [reflects.guards, Array.getD_eq_getD_getElem?, Array.getElem?_map] at own
    cases found : s.transitions[t]? with
    | none => simp [found] at own
    | some transition =>
      rw [found] at own
      exact (wellFormed.transitions found).guards g (mem_ascending.mp own)
  · intro t inside
    exact interference.rowColumns_eq addressable.transitions (lt_of_lt_of_eq inside count)
  · intro g t enabler
    have related := reflects.enabling.mem_columns.mp enabler
    exact lt_of_lt_of_eq (reflects.enabling.inside related).2 count.symm
  · intro t u neighbour
    have related := interference.mem_columns.mp neighbour
    exact lt_of_lt_of_eq (interference.inside related).2 count.symm

theorem indexable_of_ofSystem {s : TransitionSystem} {options : Options} {r : Reducer}
    (made : ofSystem s options = .ok r) : r.Indexable := by
  obtain ⟨memory, wellFormed, rfl⟩ := ofSystem_eq_ok_iff.mp made
  exact indexable_ofAnalysis (Analysis.reflects_ofValid wellFormed) wellFormed
    (TransitionSystem.addressable_of_fitsMemory memory) options

/-! ### Nothing breaks off -/

namespace Indexable

variable {r : Reducer} {covered ts enabled : List Nat} {t : Nat} {holds : Oracle}

/-- What was recorded does not matter. -/
theorem withStats (indexable : r.Indexable) (stats : Stats) :
    ({ r with stats := stats } : Reducer).Indexable :=
  ⟨indexable.tags, indexable.ownGuards, indexable.enablingSet, indexable.neighbours,
    indexable.lt_of_enabler, indexable.lt_of_neighbour⟩

/-- The seeds become members. A seed is no member yet: the processes of a member are covered. -/
theorem seedByIndex_eq (indexable : r.Indexable) {state : Members × List Nat}
    (inside : ∀ t ∈ ts, t < r.transitionCount) (size : state.1.size = r.transitionCount)
    (covers : ∀ t, state.1.has t = true → ∀ process ∈ r.analysis.processesOf t,
      process ∈ covered) :
    r.seedByIndex covered state ts = .ok ((r.seeds covered ts).foldl admitNew state) := by
  induction ts generalizing covered state with
  | nil => rfl
  | cons first rest ih =>
    have firstInside := inside first List.mem_cons_self
    have laterInside := fun t member => inside t (List.mem_cons_of_mem first member)
    have sized : first < state.1.size := lt_of_lt_of_eq firstInside size.symm
    have step : r.seedByIndex covered state (first :: rest)
        = if (r.analysis.processesOf first).all covered.contains then
            r.seedByIndex covered state rest
          else r.seedByIndex (r.analysis.processesOf first ++ covered)
            (state.1.setIfInBounds first true, first :: state.2) rest := by
      rw [seedByIndex, indexable.tags firstInside, Members.mark_eq sized]
      rfl
    rw [step, seeds]
    by_cases known : (r.analysis.processesOf first).all covered.contains = true
    · rw [if_pos known, if_pos known]
      exact ih laterInside size covers
    · have absent : ¬ state.1.has first = true := fun has => known <| List.all_eq_true.mpr
        fun process tag => List.contains_iff_mem.mpr (covers first has process tag)
      rw [if_neg known, if_neg known, List.foldl_cons, admitNew_of_absent sized absent]
      refine ih laterInside ?_ fun t has process tag => ?_
      · rw [Array.size_setIfInBounds, size]
      · rcases Members.has_setIfInBounds.mp has with old | ⟨rfl, _⟩
        · exact List.mem_append_right _ (covers t old process tag)
        · exact List.mem_append_left _ tag

end Indexable

/-- A transition whose processes are covered is passed over. -/
theorem seeds_cons_of_covered {r : Reducer} {covered rest : List Nat} {t : Nat}
    (known : (r.analysis.processesOf t).all covered.contains = true) :
    r.seeds covered (t :: rest) = r.seeds covered rest := by
  rw [seeds]
  exact if_pos known

/-- **Repeated entries bring nothing new**, so a sorted list has the seeds of its entries in
ascending order. -/
theorem seeds_eq_ascending {r : Reducer} {covered ts : List Nat} (sorted : ts.Pairwise (· ≤ ·)) :
    r.seeds covered ts = r.seeds covered (ascending ts) := by
  induction ts generalizing covered with
  | nil => rfl
  | cons t rest ih =>
    obtain ⟨below, later⟩ := List.pairwise_cons.mp sorted
    by_cases again : t ∈ rest
    · have same : ascending (t :: rest) = ascending rest := ascending_eq_iff.mpr fun u =>
        ⟨fun member => (List.mem_cons.mp member).elim (fun equal => equal ▸ again) id,
          List.mem_cons_of_mem _⟩
      rw [same, ← ih later]
      -- in a sorted list the repeated entry comes next
      cases rest with
      | nil => cases again
      | cons u rest =>
        obtain rfl : t = u := by
          have le := below u List.mem_cons_self
          have ge : u ≤ t := (List.mem_cons.mp again).elim (fun equal => Nat.le_of_eq equal.symm)
            ((List.pairwise_cons.mp later).1 t)
          omega
        by_cases known : (r.analysis.processesOf t).all covered.contains = true
        · exact seeds_cons_of_covered known
        · have now : (r.analysis.processesOf t).all
              (r.analysis.processesOf t ++ covered).contains = true := List.all_eq_true.mpr
            fun process tag => List.contains_iff_mem.mpr (List.mem_append_left _ tag)
          rw [seeds, seeds, if_neg known, if_neg known, seeds_cons_of_covered now]
    · have first : ascending (t :: rest) = t :: ascending rest := by
        refine (pairwise_ascending _).eq_of_mem_iff (List.pairwise_cons.mpr
          ⟨fun u member => ?_, pairwise_ascending rest⟩) fun u => ?_
        · have listed := mem_ascending.mp member
          exact Nat.lt_of_le_of_ne (below u listed) fun equal => again (equal ▸ listed)
        · rw [mem_ascending, List.mem_cons, List.mem_cons, mem_ascending]
      rw [first]
      by_cases known : (r.analysis.processesOf t).all covered.contains = true
      · rw [seeds_cons_of_covered known, seeds_cons_of_covered known, ih later]
      · rw [seeds, seeds, if_neg known, if_neg known, ih later]

theorem seeds_mergeSort (r : Reducer) (enabled : List Nat) :
    r.seeds [] enabled.mergeSort = r.seedsOf enabled := by
  have sorted : (enabled.mergeSort).Pairwise (· ≤ ·) := by
    refine (List.pairwise_mergeSort (fun a b c => ?_) (fun a b => ?_) enabled).imp of_decide_eq_true
    · simp only [decide_eq_true_eq]
      exact Nat.le_trans
    · simp only [Bool.or_eq_true, decide_eq_true_eq]
      exact Nat.le_total a b
  rw [seeds_eq_ascending sorted, seedsOf, ascending_eq_iff.mpr fun t => List.mem_mergeSort]

namespace Indexable

variable {r : Reducer} {enabled : List Nat} {t : Nat} {holds : Oracle}

/-- **The method `base` stays in range.** -/
theorem baseByIndex_eq (indexable : r.Indexable) (inside : ∀ t ∈ enabled, t < r.transitionCount) :
    r.baseByIndex (.ofList r.transitionCount enabled) enabled = .ok (r.baseMembers enabled) := by
  have size := Members.size_ofList r.transitionCount enabled
  have seeded : r.seedByIndex [] (Array.replicate r.transitionCount false, []) enabled.mergeSort
      = .ok ((r.seedsOf enabled).foldl admitNew (Array.replicate r.transitionCount false, [])) := by
    rw [← seeds_mergeSort]
    refine indexable.seedByIndex_eq (fun t member => inside t (List.mem_mergeSort.mp member))
      Array.size_replicate fun t has => ?_
    rw [Members.has_replicate_false] at has
    cases has
  have seededSize := (foldl_admitNew_spec (r.seedsOf enabled)
    (Array.replicate r.transitionCount false, [])).size.trans Array.size_replicate
  unfold baseByIndex
  rw [size, seeded]
  refine closureByIndex_eq (fun t => indexable.neighbours) (fun t _ u => indexable.lt_of_neighbour)
    (fun u known => Members.elementAt_eq (lt_of_lt_of_eq known size.symm)) seededSize
    fun t waits => ?_
  rcases Worklist.mem_work_foldl_admitNew waits with none | ⟨_, below⟩
  · cases none
  · exact lt_of_lt_of_eq below Array.size_replicate

/-- The enabled transitions that one conflicts with. -/
theorem rivalsByIndex_eq (r : Reducer) {fires : Members} (size : fires.size = r.transitionCount) :
    (List.range fires.size).mapM (r.rivalByIndex fires t)
      = .ok ((List.range r.transitionCount).map fun u =>
          if u != t && fires.has u && r.analysis.conflict.get t u then [u] else []) := by
  rw [size]
  refine mapM_eq_ok fun u member => ?_
  unfold rivalByIndex
  rw [Members.elementAt_eq (lt_of_lt_of_eq (List.mem_range.mp member) size.symm),
    BitMatrix.cellAt_eq]
  by_cases same : u = t
  · simp [same, pure, Except.pure]
  · cases has : fires.has u with
    | false => simp [same, bind, Except.bind, pure, Except.pure]
    | true =>
      cases rival : r.analysis.conflict.get t u with
      | false => simp [same, bind, Except.bind, pure, Except.pure]
      | true => simp [same, bind, Except.bind, pure, Except.pure]

/-- **What a member asks for** is looked up in range. -/
theorem demandsByIndex_eq (indexable : r.Indexable) {fires : Members}
    (size : fires.size = r.transitionCount) (inside : t < r.transitionCount) :
    r.demandsByIndex fires holds t = .ok (r.demands fires holds t) := by
  unfold demandsByIndex demands
  rw [Members.elementAt_eq (lt_of_lt_of_eq inside size.symm), indexable.neighbours inside,
    rivalsByIndex_eq r size, indexable.ownGuards inside]
  by_cases fires : fires.has t = true
  · rw [if_pos fires, fires, enabledRivals, ← flatten_map_ite]
    rfl
  · rw [if_neg fires, Bool.eq_false_of_not_eq_true fires]
    by_cases free : (r.analysis.guardsOf t).isEmpty = true
    · rw [if_pos free]
      exact if_pos free
    · rw [if_neg free]
      refine (if_neg free).trans ?_
      unfold decisiveGuards
      dsimp only
      cases found : (r.analysis.guardsOf t).find? fun g => holds g == some false with
      | some g =>
        rw [List.flatMap_singleton]
        exact indexable.enablingSet (List.mem_of_find?_eq_some found)
      | none =>
        dsimp only
        rw [mapM_eq_ok fun g member => indexable.enablingSet (List.mem_of_mem_filter member)]
        rfl

/-- No member asks for anything out of range. -/
theorem lt_of_mem_demands (indexable : r.Indexable) {fires : Members} {u : Nat}
    (asked : u ∈ r.demands fires holds t) : u < r.transitionCount := by
  unfold demands at asked
  split at asked
  · rcases List.mem_append.mp asked with neighbour | rival
    · exact indexable.lt_of_neighbour neighbour
    · exact List.mem_range.mp (List.mem_of_mem_filter rival)
  · split at asked
    · exact indexable.lt_of_neighbour asked
    · obtain ⟨g, _, enabler⟩ := List.mem_flatMap.mp asked
      exact indexable.lt_of_enabler enabler

/-- **The method `stubbornSet` stays in range.** -/
theorem stubbornByIndex_eq (indexable : r.Indexable) {seed : Nat}
    (inside : seed < r.transitionCount) :
    r.stubbornByIndex (.ofList r.transitionCount enabled) holds seed
      = .ok (r.stubbornMembers enabled holds seed) := by
  have size := Members.size_ofList r.transitionCount enabled
  have room : seed < (Array.replicate r.transitionCount false).size := by
    rwa [Array.size_replicate]
  have absent : ¬ Members.has (Array.replicate r.transitionCount false) seed = true := by
    rw [Members.has_replicate_false]
    exact Bool.false_ne_true
  have everything : (fun t => (r.demands (.ofList r.transitionCount enabled) holds t).filter
      fun _ => true) = r.demands (.ofList r.transitionCount enabled) holds := by
    funext t
    exact List.filter_true _
  unfold stubbornByIndex stubbornMembers closureOf
  rw [size, Members.mark_eq room, List.foldl_cons, List.foldl_nil, admitNew_of_absent room absent,
    ← everything]
  refine closureByIndex_eq (fun t => indexable.demandsByIndex_eq size)
    (fun t _ u => indexable.lt_of_mem_demands) (fun _ _ => rfl) ?_ fun t waits => ?_
  · rw [Array.size_setIfInBounds, Array.size_replicate]
  · rwa [List.mem_singleton.mp waits]

/-- Both methods stay in range. -/
theorem membersByIndex_eq (indexable : r.Indexable) {seed : Nat}
    (inside : ∀ t ∈ enabled, t < r.transitionCount) (seedInside : seed < r.transitionCount) :
    r.membersByIndex (.ofList r.transitionCount enabled) enabled holds seed
      = .ok (r.members enabled holds seed) := by
  unfold membersByIndex members
  cases r.options.method with
  | base => exact indexable.baseByIndex_eq inside
  | stubbornSet => exact indexable.stubbornByIndex_eq seedInside

theorem size_members (r : Reducer) (enabled : List Nat) (holds : Oracle) (seed : Nat) :
    (r.members enabled holds seed).size = r.transitionCount := by
  unfold members
  cases r.options.method with
  | base => exact (closureOf_spec _ _ _).1
  | stubbornSet => exact (closureOf_spec _ _ _).1

/-- **No access is out of range**, and the flags are those of `flags`. -/
theorem flagsByIndex_eq (indexable : r.Indexable) (holds : Oracle)
    (inside : ∀ t ∈ enabled, t < r.transitionCount) :
    r.flagsByIndex (.ofList r.transitionCount enabled) enabled holds
      = .ok (r.flags enabled holds) := by
  match enabled with
  | [] => rfl
  | [_] => rfl
  | first :: second :: rest =>
    have seedInside := inside _ (least_mem first (second :: rest))
    have size := size_members r (first :: second :: rest) holds (least first (second :: rest))
    unfold flagsByIndex
    dsimp only
    rw [indexable.membersByIndex_eq inside seedInside]
    exact mapM_eq_ok fun t member =>
      Members.elementAt_eq (lt_of_lt_of_eq (inside t member) size.symm)

end Indexable

end Reducer

end StateSpace

/-
**An analysis erases how a description is written down.**

* `TransitionSystem.Alike` — two descriptions say the same: their footprints are equal as sets, and
  so are their enabling sets, declared or derived, and their exclusive pairs in either order. The
  order of a list and repetitions in it do not count, nor does the number of processes.
* `ascending_eq_iff` — a list in ascending order is determined by its entries.
* `Analysis.Reflects.of_alike` — an analysis reflects every description that says the same, so the
  descriptions have one analysis.
* `Analysis.Reflects.alike` — an analysis tells everything that the descriptions have in common;
  the exclusive pairs are told by the guards that may hold together
  (`Analysis.Reflects.excludes_iff`).
* `Analysis.canonical` — so two analyses are equal exactly if their descriptions say the same.
-/

import Mathlib.Data.List.Sort
import StateSpace.Proofs.Analysis.Reflects
import StateSpace.Reduction.Reducer

namespace StateSpace

namespace TransitionSystem

/-- What transition `t` is called, if there is one. -/
def label? (s : TransitionSystem) (t : Nat) : Option String :=
  (s.transitions[t]?).map fun transition => labelOf transition t

/-- **Two descriptions say the same**: they have equally many variables, transitions and guards, the
same names, and the same footprints as sets. -/
structure Alike (s s' : TransitionSystem) : Prop where
  variableCount_eq : s.variableCount = s'.variableCount
  transitions_size : s.transitions.size = s'.transitions.size
  guards_size : s.guards.size = s'.guards.size
  label?_eq : ∀ t, s.label? t = s'.label? t
  reads_iff : ∀ t v, s.Reads t v ↔ s'.Reads t v
  writes_iff : ∀ t v, s.Writes t v ↔ s'.Writes t v
  hasTag_iff : ∀ t process, s.HasTag t process ↔ s'.HasTag t process
  hasGuard_iff : ∀ t g, s.HasGuard t g ↔ s'.HasGuard t g
  guardReads_iff : ∀ g v, s.GuardReads g v ↔ s'.GuardReads g v
  enables_iff : ∀ t g, s.Enables t g ↔ s'.Enables t g
  excludes_iff : ∀ g h, s.Excludes g h ↔ s'.Excludes g h

namespace Alike

variable {s s' : TransitionSystem} (alike : s.Alike s') (t u g h : Nat)

include alike

theorem dependent_iff : s.Dependent t u ↔ s'.Dependent t u := by
  simp only [Dependent, alike.reads_iff, alike.writes_iff]

theorem conflicts_iff : s.Conflicts t u ↔ s'.Conflicts t u := by
  simp only [Conflicts, alike.writes_iff]

theorem sameProcess_iff : s.SameProcess t u ↔ s'.SameProcess t u := by
  simp only [SameProcess, alike.hasTag_iff]

theorem neverCoenabled_iff : s.NeverCoenabled t u ↔ s'.NeverCoenabled t u := by
  simp only [NeverCoenabled, alike.hasGuard_iff, alike.excludes_iff]

theorem coenabled_iff : s.Coenabled g h ↔ s'.Coenabled g h := by
  simp only [Coenabled, alike.guards_size, alike.excludes_iff]

end Alike

end TransitionSystem

/-! ### Lists in ascending order -/

/-- **A list in ascending order is determined by its entries.** -/
theorem ascending_eq_iff {numbers numbers' : List Nat} :
    ascending numbers = ascending numbers' ↔
      ∀ number, number ∈ numbers ↔ number ∈ numbers' := by
  constructor
  · intro same number
    rw [← mem_ascending, same, mem_ascending]
  · intro same
    refine (pairwise_ascending numbers).eq_of_mem_iff (pairwise_ascending numbers') ?_
    intro number
    rw [mem_ascending, mem_ascending, same]

/-- Arrays are compared entry by entry, past their ends as well. -/
theorem array_eq_iff {α : Type} {entries entries' : Array α} :
    entries = entries' ↔ ∀ t : Nat, entries[t]? = entries'[t]? :=
  ⟨fun same _ => same ▸ rfl, Array.ext_getElem?⟩

/-- The lists of all transitions in ascending order are determined by their entries. -/
theorem map_ascending_eq_iff {entries entries' : Array Transition} {f : Transition → List Nat}
    (size : entries.size = entries'.size) :
    (entries.map fun entry => ascending (f entry)) = entries'.map (fun entry => ascending (f entry))
      ↔ ∀ t number : Nat, (∃ entry, entries[t]? = some entry ∧ number ∈ f entry) ↔
        ∃ entry, entries'[t]? = some entry ∧ number ∈ f entry := by
  rw [array_eq_iff]
  refine forall_congr' fun t => ?_
  rw [Array.getElem?_map, Array.getElem?_map]
  by_cases inside : t < entries.size
  · have inside' : t < entries'.size := size ▸ inside
    rw [Array.getElem?_eq_getElem inside, Array.getElem?_eq_getElem inside', Option.map_some,
      Option.map_some, Option.some.injEq, ascending_eq_iff]
    simp
  · have beyond : entries.size ≤ t := Nat.le_of_not_lt inside
    rw [Array.getElem?_eq_none beyond, Array.getElem?_eq_none (size ▸ beyond)]
    simp

namespace Analysis

variable {s s' : TransitionSystem} {a b : Analysis}

theorem labels_eq_iff :
    (s.transitions.mapIdx fun number transition => TransitionSystem.labelOf transition number)
        = (s'.transitions.mapIdx fun number transition =>
            TransitionSystem.labelOf transition number)
      ↔ ∀ t, s.label? t = s'.label? t := by
  rw [array_eq_iff]
  simp only [Array.getElem?_mapIdx, TransitionSystem.label?]

namespace Reflects

/-! ### From descriptions to analyses -/

/-- **An analysis reflects every description that says the same.** -/
theorem of_alike (reflects : a.Reflects s) (alike : s.Alike s') : a.Reflects s' := by
  have width := alike.variableCount_eq
  have transitions := alike.transitions_size
  have guards := alike.guards_size
  exact {
    variableCount := reflects.variableCount.trans width
    labels := reflects.labels.trans (labels_eq_iff.mpr alike.label?_eq)
    processes := reflects.processes.trans
      ((map_ascending_eq_iff transitions).mpr alike.hasTag_iff)
    guards := reflects.guards.trans ((map_ascending_eq_iff transitions).mpr alike.hasGuard_iff)
    read := transitions ▸ width ▸ reflects.read.congr alike.reads_iff
    write := transitions ▸ width ▸ reflects.write.congr alike.writes_iff
    guardRead := guards ▸ width ▸ reflects.guardRead.congr alike.guardReads_iff
    enabling := guards ▸ transitions ▸ reflects.enabling.congr fun g t => alike.enables_iff t g
    coenabled := guards ▸ reflects.coenabled.congr alike.coenabled_iff
    dependent := transitions ▸ reflects.dependent.congr alike.dependent_iff
    conflict := transitions ▸ reflects.conflict.congr alike.conflicts_iff
    sameProcess := transitions ▸ reflects.sameProcess.congr alike.sameProcess_iff
    neverCoenabled := transitions ▸ reflects.neverCoenabled.congr alike.neverCoenabled_iff }

/-! ### From analyses to descriptions -/

/-- **The exclusive pairs are told by the guards that may hold together.** -/
theorem excludes_iff (reflects : a.Reflects s) (wellFormed : s.WellFormed) (g h : Nat) :
    s.Excludes g h ↔ (g < a.guardCount ∧ h < a.guardCount) ∧ a.coenabled.get g h = false := by
  have inside : s.Excludes g h → g < s.guards.size ∧ h < s.guards.size := by
    rintro (listed | listed)
    · exact ⟨(wellFormed.exclusive _ listed).1, (wellFormed.exclusive _ listed).2.1⟩
    · exact ⟨(wellFormed.exclusive _ listed).2.1, (wellFormed.exclusive _ listed).1⟩
  rw [guardCount, reflects.coenabled.rows_eq, ← Bool.not_eq_true, reflects.coenabled.get_iff,
    TransitionSystem.Coenabled]
  constructor
  · intro excludes
    exact ⟨inside excludes, fun together => together.2 excludes⟩
  · rintro ⟨known, apart⟩
    exact Classical.byContradiction fun compatible => apart ⟨known, compatible⟩

/-- **An analysis tells all that its descriptions have in common.** -/
theorem alike (reflects : a.Reflects s) (reflects' : a.Reflects s') (wellFormed : s.WellFormed)
    (wellFormed' : s'.WellFormed) : s.Alike s' := by
  have transitions : s.transitions.size = s'.transitions.size :=
    reflects.transitionCount_eq.symm.trans reflects'.transitionCount_eq
  exact {
    variableCount_eq := reflects.variableCount.symm.trans reflects'.variableCount
    transitions_size := transitions
    guards_size := reflects.coenabled.rows_eq.symm.trans reflects'.coenabled.rows_eq
    label?_eq := labels_eq_iff.mp (reflects.labels.symm.trans reflects'.labels)
    reads_iff := fun t v => reflects.read.get_iff.symm.trans reflects'.read.get_iff
    writes_iff := fun t v => reflects.write.get_iff.symm.trans reflects'.write.get_iff
    hasTag_iff := (map_ascending_eq_iff transitions).mp
      (reflects.processes.symm.trans reflects'.processes)
    hasGuard_iff := (map_ascending_eq_iff transitions).mp
      (reflects.guards.symm.trans reflects'.guards)
    guardReads_iff := fun g v => reflects.guardRead.get_iff.symm.trans reflects'.guardRead.get_iff
    enables_iff := fun t g => reflects.enabling.get_iff.symm.trans reflects'.enabling.get_iff
    excludes_iff := fun g h =>
      (reflects.excludes_iff wellFormed g h).trans (reflects'.excludes_iff wellFormed' g h).symm }

end Reflects

/-- **An analysis is a canonical form of its description.** The analyses of two descriptions are
equal, word by word, exactly if the descriptions say the same. Then reducers over them answer every
call alike, for all options. The exclusive pairs of a description are those of its guards that its
analysis does not take to hold together. -/
theorem canonical (made : ofSystem s = .ok a) (made' : ofSystem s' = .ok b) :
    (a = b ↔ s.Alike s') ∧
    (s.Alike s' → ∀ options, Reducer.ofSystem s options = Reducer.ofSystem s' options ∧
      ∀ enabled holds, (Reducer.ofAnalysis a options).reduce enabled holds
        = (Reducer.ofAnalysis b options).reduce enabled holds) ∧
    ∀ g h, s.Excludes g h ↔
      (g < a.guardCount ∧ h < a.guardCount) ∧ a.coenabled.get g h = false := by
  obtain ⟨_, wellFormed, same⟩ := ofSystem_eq_ok_iff.mp made
  obtain ⟨_, wellFormed', same'⟩ := ofSystem_eq_ok_iff.mp made'
  have reflects : a.Reflects s := same ▸ reflects_ofValid wellFormed
  have reflects' : b.Reflects s' := same' ▸ reflects_ofValid wellFormed'
  have equal : a = b ↔ s.Alike s' := by
    constructor
    · rintro rfl
      exact reflects.alike reflects' wellFormed wellFormed'
    · intro alike
      exact (reflects.of_alike alike).unique reflects'
  refine ⟨equal, fun alike options => ?_, reflects.excludes_iff wellFormed⟩
  obtain rfl := equal.mpr alike
  refine ⟨?_, fun enabled holds => rfl⟩
  rw [Reducer.ofSystem, made, Reducer.ofSystem, made']

/-! ### One system written down twice -/

/-- Two transitions of two processes, the first one without a name. -/
def plainRelay : TransitionSystem where
  variableCount := 3
  processCount := 2
  transitions := #[⟨"", [0], [], [1], [0]⟩, ⟨"pass", [0, 1], [2], [0], [0, 1]⟩]
  guards := #[⟨[0], none⟩, ⟨[1, 2], some [0]⟩]
  exclusiveGuards := [(0, 1)]

/-- The same in other words. The name is spelled out, entries are repeated and turned around, a
guard's variable is declared once more and another one is left to the guard, the enablers are
declared for the first guard and not for the second, the pair stands both ways, and there are three
more processes. -/
def wordyRelay : TransitionSystem where
  variableCount := 3
  processCount := 5
  transitions := #[⟨"t0", [0, 0], [0], [1, 1], [0, 0]⟩, ⟨"pass", [1, 0, 1], [], [0], [1, 0, 1]⟩]
  guards := #[⟨[0, 0], some [1]⟩, ⟨[2, 1], none⟩]
  exclusiveGuards := [(1, 0), (0, 1)]

theorem plainRelay_alike : plainRelay.Alike wordyRelay where
  variableCount_eq := rfl
  transitions_size := rfl
  guards_size := rfl
  label?_eq := by rintro (_ | _ | t) <;> rfl
  reads_iff := by
    rintro (_ | _ | t) v <;>
      simp [TransitionSystem.Reads, TransitionSystem.HasGuard, TransitionSystem.GuardReads,
        plainRelay, wordyRelay]
    omega
  writes_iff := by
    rintro (_ | _ | t) v <;> simp [TransitionSystem.Writes, plainRelay, wordyRelay]
  hasTag_iff := by
    rintro (_ | _ | t) process <;> simp [TransitionSystem.HasTag, plainRelay, wordyRelay]
    omega
  hasGuard_iff := by
    rintro (_ | _ | t) g <;> simp [TransitionSystem.HasGuard, plainRelay, wordyRelay]
    omega
  guardReads_iff := by
    rintro (_ | _ | g) v <;> simp [TransitionSystem.GuardReads, plainRelay, wordyRelay]
    omega
  enables_iff := by
    rintro (_ | _ | t) (_ | _ | g) <;>
      simp [TransitionSystem.Enables, TransitionSystem.Writes, plainRelay, wordyRelay]
  excludes_iff := by
    intro g h
    simp only [TransitionSystem.Excludes, plainRelay, wordyRelay, List.mem_cons, Prod.mk.injEq,
      List.not_mem_nil, or_false]
    omega

/-- Both have one analysis, and so a reducer for either answers alike. Without the exclusive pair
the analysis is another one. -/
theorem canonical_plainRelay :
    plainRelay ≠ wordyRelay ∧ plainRelay.Alike wordyRelay ∧
      ∃ a, ofSystem plainRelay = .ok a ∧ ofSystem wordyRelay = .ok a ∧
        (∀ options, Reducer.ofSystem plainRelay options = Reducer.ofSystem wordyRelay options) ∧
        a.coenabled.get 0 1 = false ∧
        ∃ b, ofSystem { plainRelay with exclusiveGuards := [] } = .ok b ∧ a ≠ b := by
  have made : ofSystem plainRelay = .ok (ofValid plainRelay) := rfl
  have made' : ofSystem wordyRelay = .ok (ofValid wordyRelay) := rfl
  have loose : ofSystem { plainRelay with exclusiveGuards := [] }
      = .ok (ofValid { plainRelay with exclusiveGuards := [] }) := rfl
  obtain ⟨equal, reducers, excludes⟩ := canonical made made'
  have same := equal.mpr plainRelay_alike
  refine ⟨by decide, plainRelay_alike, _, made, same ▸ made',
    fun options => (reducers plainRelay_alike options).1,
    ((excludes 0 1).mp (.inl (by decide))).2, _, loose, fun equal' => ?_⟩
  -- equal analyses would have the same exclusive pairs
  have alike := (canonical made loose).1.mp equal'
  have listed : plainRelay.Excludes 0 1 := .inl (by decide)
  exact absurd ((alike.excludes_iff 0 1).mp listed) (by simp [TransitionSystem.Excludes])

end Analysis

end StateSpace

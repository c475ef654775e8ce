/-
**The first violation of a description.**

* `Violation` — one thing that is wrong with a description, and where it stands.
  `TransitionSystem.Violates` says which of them a description has, and
  `TransitionSystem.complaint` what is complained about.
* `Violation.place` — the path that leads to a violation: the pass, the entry, the list of the entry
  and the position in the list. `Violation.Before` compares paths number by number.
* `TransitionSystem.enumerates_violations` — what is found wrong are the violations, each once, and
  in the order of their places.
* `Analysis.validation_exact` — a description is analysed if it is well formed, and otherwise it is
  refused for its first violation; the passes that make the analysis never break off.
-/

import StateSpace.Proofs.Analysis.Assembly

namespace StateSpace

/-! ### Violations and their places -/

/-- What the numbers in a description stand for. -/
inductive Kind where
  | ofVariable
  | ofProcess
  | ofTransition
  | ofGuard
deriving DecidableEq

/-- The lists of numbers of a guard. -/
inductive GuardField where
  | reads
  | enablers
deriving DecidableEq

/-- The lists of numbers of a transition. -/
inductive TransitionField where
  | processes
  | reads
  | writes
  | guards
deriving DecidableEq

/-- **One thing that is wrong with a description.** -/
inductive Violation where
  /-- There are transitions but no process. -/
  | noProcess
  /-- A number in a list of a guard, at the given position. -/
  | guard (g : Nat) (field : GuardField) (position number : Nat)
  /-- A transition without a process tag. -/
  | untagged (t : Nat)
  /-- A number in a list of a transition, at the given position. -/
  | transition (t : Nat) (field : TransitionField) (position number : Nat)
  /-- The first or the second number of an exclusive pair. -/
  | pair (position part number : Nat)
  /-- A guard that is paired with itself. -/
  | itself (position g : Nat)
deriving DecidableEq

namespace Kind

def noun : Kind → String
  | ofVariable => "variable"
  | ofProcess => "process"
  | ofTransition => "transition"
  | ofGuard => "guard"

/-- How many there are. -/
def count (s : TransitionSystem) : Kind → Nat
  | ofVariable => s.variableCount
  | ofProcess => s.processCount
  | ofTransition => s.transitions.size
  | ofGuard => s.guards.size

end Kind

namespace GuardField

def kind : GuardField → Kind
  | reads => .ofVariable
  | enablers => .ofTransition

def numbers (guard : Guard) : GuardField → List Nat
  | reads => guard.reads
  | enablers => guard.enablers.getD []

/-- Reads are looked at before enablers. -/
def order : GuardField → Nat
  | reads => 0
  | enablers => 1

end GuardField

namespace TransitionField

def kind : TransitionField → Kind
  | processes => .ofProcess
  | reads => .ofVariable
  | writes => .ofVariable
  | guards => .ofGuard

def numbers (transition : Transition) : TransitionField → List Nat
  | processes => transition.processes
  | reads => transition.reads
  | writes => transition.writes
  | guards => transition.guards

/-- A missing tag comes first, then the tags, the reads, the writes and the guards. -/
def order : TransitionField → Nat
  | processes => 1
  | reads => 2
  | writes => 3
  | guards => 4

end TransitionField

namespace Violation

/-- **The path to a violation**: a missing process, guards, transitions and exclusive pairs are
looked for in this order, each by number. -/
def place : Violation → List Nat
  | noProcess => [0]
  | guard g field position _ => [1, g, field.order, position]
  | untagged t => [2, t, 0]
  | transition t field position _ => [2, t, field.order, position]
  | pair position part _ => [3, position, 0, part]
  | itself position _ => [3, position, 1]

/-- The first number in which two paths differ decides. -/
def Before (v w : Violation) : Prop :=
  List.Lex (· < ·) v.place w.place

theorem Before.asymm {v w : Violation} (before : v.Before w) : ¬ w.Before v :=
  List.lex_asymm (fun less more => Nat.lt_asymm less more) before

end Violation

namespace TransitionSystem

/-- **A description has a violation.** -/
def Violates (s : TransitionSystem) : Violation → Prop
  | .noProcess => 0 < s.transitions.size ∧ s.processCount = 0
  | .guard g field position number => ∃ guard, s.guards[g]? = some guard ∧
      (field.numbers guard)[position]? = some number ∧ field.kind.count s ≤ number
  | .untagged t => ∃ transition, s.transitions[t]? = some transition ∧ transition.processes = []
  | .transition t field position number => ∃ transition, s.transitions[t]? = some transition ∧
      (field.numbers transition)[position]? = some number ∧ field.kind.count s ≤ number
  | .pair position part number => ∃ pair, s.exclusiveGuards[position]? = some pair ∧
      [pair.1, pair.2][part]? = some number ∧ s.guards.size ≤ number
  | .itself position g => s.exclusiveGuards[position]? = some (g, g)

/-- The complaint about a number that is too large. -/
def missing (s : TransitionSystem) (kind : Kind) (number : Nat) : String :=
  let noun := kind.noun
  let count := kind.count s
  s!"{noun} {number} out of range 0..{count}"

/-- **What is complained about.** -/
def complaint (s : TransitionSystem) : Violation → Error
  | .noProcess =>
    let count := s.transitions.size
    .malformedSystem s!"{count} transitions but no process"
  | .guard g field _ number => .malformedGuard g (s.missing field.kind number)
  | .untagged t => .malformedTransition t "no process tag"
  | .transition t field _ number => .malformedTransition t (s.missing field.kind number)
  | .pair _ _ number =>
    let reason := s.missing .ofGuard number
    .malformedSystem s!"exclusive pair: {reason}"
  | .itself _ g => .malformedGuard g "declared exclusive with itself"

/-! ### Lists of complaints in order -/

/-- Entries can be numbered before they are gone through. -/
theorem flatMap_eq_zipIdx {α β : Type} (entries : List α) (f : α → List β) :
    entries.flatMap f = entries.zipIdx.flatMap fun entry => f entry.1 :=
  calc entries.flatMap f
      = (entries.zipIdx.map Prod.fst).flatMap f := by rw [List.zipIdx_map_fst]
    _ = entries.zipIdx.flatMap fun entry => f entry.1 := List.flatMap_map ..

/-- **Errors are the complaints about some violations**, each once and in the order of their places,
which all lie within a part of the description. -/
def Enumerates (s : TransitionSystem) (within : List Nat → Prop) (errors : List Error)
    (found : Violation → Prop) : Prop :=
  ∃ violations : List Violation, violations.map s.complaint = errors ∧
    violations.Pairwise Violation.Before ∧ (∀ v, v ∈ violations ↔ found v) ∧
    ∀ v, found v → within v.place

/-- The paths that go on from a place with a number of at least `start`. -/
def UnderFrom (place : List Nat) (start : Nat) (path : List Nat) : Prop :=
  ∃ number rest, start ≤ number ∧ path = place ++ number :: rest

/-- A path that goes on with a smaller number comes first. -/
theorem lex_of_under {place first second : List Nat} {number : Nat}
    (under : place ++ [number] <+: first) (later : UnderFrom place (number + 1) second) :
    List.Lex (· < ·) first second := by
  obtain ⟨rest, rfl⟩ := under
  obtain ⟨number', rest', more, rfl⟩ := later
  rw [List.append_assoc]
  induction place with
  | nil => exact .rel more
  | cons step steps ih => exact .cons ih

namespace Enumerates

variable {s : TransitionSystem} {within within' : List Nat → Prop} {place : List Nat}
  {number : Nat} {errors errors' : List Error} {found found' : Violation → Prop}

theorem congr (enumerates : s.Enumerates within errors found)
    (same : ∀ v, found v ↔ found' v) : s.Enumerates within errors found' := by
  have equal : found = found' := funext fun v => propext (same v)
  exact equal ▸ enumerates

theorem mono (enumerates : s.Enumerates within errors found)
    (weaker : ∀ path, within path → within' path) : s.Enumerates within' errors found := by
  obtain ⟨violations, complaints, ordered, all, inside⟩ := enumerates
  exact ⟨violations, complaints, ordered, all, fun v holds => weaker _ (inside v holds)⟩

theorem none : s.Enumerates within [] fun _ => False :=
  ⟨[], rfl, .nil, fun v => by simp, fun _ impossible => impossible.elim⟩

/-- A violation that is found if a test says so. -/
theorem single {P : Prop} [Decidable P] (v : Violation) (inside : within v.place) :
    s.Enumerates within (if P then [s.complaint v] else []) fun w => P ∧ w = v := by
  by_cases fails : P
  · rw [if_pos fails]
    refine ⟨[v], rfl, List.pairwise_singleton _ v, fun w => ?_, fun w holds => holds.2 ▸ inside⟩
    exact List.mem_singleton.trans (and_iff_right fails).symm
  · rw [if_neg fails]
    exact none.congr fun w => by simp [fails]

/-- **What is found at one number, and then what is found at larger ones.** -/
theorem append (first : s.Enumerates (List.IsPrefix (place ++ [number])) errors found)
    (later : s.Enumerates (UnderFrom place (number + 1)) errors' found') :
    s.Enumerates (UnderFrom place number) (errors ++ errors') fun v => found v ∨ found' v := by
  obtain ⟨violations, complaints, ordered, all, inside⟩ := first
  obtain ⟨violations', complaints', ordered', all', inside'⟩ := later
  refine ⟨violations ++ violations', ?_, ?_, fun v => ?_, fun v holds => ?_⟩
  · rw [List.map_append, complaints, complaints']
  · refine List.pairwise_append.mpr ⟨ordered, ordered', fun v here w there => ?_⟩
    exact lex_of_under (inside v ((all v).mp here)) (inside' w ((all' w).mp there))
  · rw [List.mem_append, all, all']
  · rcases holds with here | there
    · obtain ⟨rest, path⟩ := inside v here
      exact ⟨number, rest, Nat.le_refl _, by rw [← path, List.append_assoc]; rfl⟩
    · obtain ⟨number', rest, more, path⟩ := inside' v there
      exact ⟨number', rest, Nat.le_of_succ_le more, path⟩

theorem last (enumerates : s.Enumerates (List.IsPrefix (place ++ [number])) errors found) :
    s.Enumerates (UnderFrom place number) errors found := by
  have padded := enumerates.append none
  rw [List.append_nil] at padded
  exact padded.congr fun v => by simp

/-- The numbers of a place are the parts of what lies under it. -/
theorem under (enumerates : s.Enumerates (UnderFrom place number) errors found) :
    s.Enumerates (List.IsPrefix place) errors found := by
  apply enumerates.mono
  intro path later
  obtain ⟨number', rest, _, goesOn⟩ := later
  exact ⟨number' :: rest, goesOn.symm⟩

/-- **What is found entry by entry.** -/
theorem entries (place : List Nat) {α : Type} (entries : List α)
    {errorsOf : Nat → α → List Error} {foundAt : Nat → α → Violation → Prop}
    (each : ∀ number entry, entries[number]? = some entry →
      s.Enumerates (List.IsPrefix (place ++ [number])) (errorsOf number entry)
        (foundAt number entry)) :
    s.Enumerates (List.IsPrefix place)
      (entries.zipIdx.flatMap fun entry => errorsOf entry.2 entry.1)
      fun v => ∃ number entry, entries[number]? = some entry ∧ foundAt number entry v := by
  -- by induction on the entries that are left, which are numbered from `start` on
  suffices run : ∀ (left : List α) (start : Nat),
      (∀ entry ∈ left.zipIdx start, s.Enumerates (List.IsPrefix (place ++ [entry.2]))
        (errorsOf entry.2 entry.1) (foundAt entry.2 entry.1)) →
      s.Enumerates (UnderFrom place start)
        ((left.zipIdx start).flatMap fun entry => errorsOf entry.2 entry.1)
        fun v => ∃ entry ∈ left.zipIdx start, foundAt entry.2 entry.1 v by
    refine (run entries 0 fun entry member => ?_).under.congr fun v => ?_
    · exact each entry.2 entry.1 (List.mem_zipIdx_iff_getElem?.mp member)
    · simp only [Prod.exists, List.mem_zipIdx_iff_getElem?]
      rw [exists_comm]
  intro left
  induction left with
  | nil =>
    intro start _
    exact none.congr fun v => by simp
  | cons entry rest ih =>
    intro start known
    rw [List.zipIdx_cons] at known
    rw [List.zipIdx_cons, List.flatMap_cons]
    have tail := ih (start + 1) fun entry' member => known entry' (List.mem_cons_of_mem _ member)
    refine ((known (entry, start) List.mem_cons_self).append tail).congr fun v => ?_
    simp only [List.mem_cons, exists_eq_or_imp]

/-- **The numbers of a list**: those that are too large are complained about. -/
theorem outOfBounds (kind : Kind) {complaint : String → Error} {make : Nat → Nat → Violation}
    (places : ∀ position number, (make position number).place = place ++ [position])
    (texts : ∀ position number, s.complaint (make position number)
      = complaint (s.missing kind number)) (numbers : List Nat) :
    s.Enumerates (List.IsPrefix place)
      (StateSpace.outOfBounds kind.noun (kind.count s) complaint numbers)
      fun v => ∃ position number, numbers[position]? = some number ∧ kind.count s ≤ number ∧
        v = make position number := by
  have listed : StateSpace.outOfBounds kind.noun (kind.count s) complaint numbers
      = numbers.zipIdx.flatMap fun entry =>
        if kind.count s ≤ entry.1 then [s.complaint (make entry.2 entry.1)] else [] := by
    have alone : ∀ number, StateSpace.outOfBounds kind.noun (kind.count s) complaint [number]
        = if kind.count s ≤ number then [complaint (s.missing kind number)] else [] := by
      intro number
      by_cases large : kind.count s ≤ number
      · simp [StateSpace.outOfBounds, large, missing]
      · simp [StateSpace.outOfBounds, large]
    simp only [texts]
    rw [outOfBounds_eq_flatMap, funext alone, flatMap_eq_zipIdx]
  have each : ∀ position number, numbers[position]? = some number →
      s.Enumerates (List.IsPrefix (place ++ [position]))
        (if kind.count s ≤ number then [s.complaint (make position number)] else [])
        fun v => kind.count s ≤ number ∧ v = make position number := by
    intro position number _
    exact single (make position number) ⟨[], by rw [List.append_nil, places]⟩
  rw [listed]
  exact entries place numbers each

/-- **The first error is the complaint about the first violation.** -/
theorem head?_eq_some_iff (enumerates : s.Enumerates within errors found) {cause : Error} :
    errors.head? = some cause ↔
      ∃ v, found v ∧ (∀ w, found w → w = v ∨ v.Before w) ∧ cause = s.complaint v := by
  obtain ⟨violations, rfl, ordered, all, _⟩ := enumerates
  cases violations with
  | nil =>
    simp only [List.not_mem_nil, false_iff] at all
    simp [all]
  | cons first rest =>
    have least : ∀ w, found w → w = first ∨ first.Before w := by
      intro w holds
      rcases List.mem_cons.mp ((all w).mpr holds) with same | later
      · exact .inl same
      · exact .inr (List.rel_of_pairwise_cons ordered later)
    have holds : found first := (all first).mp List.mem_cons_self
    rw [List.map_cons, List.head?_cons, Option.some.injEq]
    constructor
    · intro same
      exact ⟨first, holds, least, same.symm⟩
    · intro claimed
      obtain ⟨v, holds', least', same⟩ := claimed
      -- neither of two first violations comes before the other
      rcases least v holds' with equal | before
      · rw [same, equal]
      · rcases least' first holds with equal | after
        · rw [same, equal]
        · exact absurd after before.asymm

end Enumerates

/-! ### The passes of the check -/

variable {s : TransitionSystem}

theorem enumerates_process :
    s.Enumerates (List.IsPrefix [0]) s.processViolations
      fun v => (0 < s.transitions.size ∧ s.processCount = 0) ∧ v = .noProcess := by
  unfold processViolations
  exact Enumerates.single .noProcess (List.prefix_refl [0])

theorem enumerates_guard (g : Nat) (guard : Guard) :
    s.Enumerates (List.IsPrefix [1, g]) (s.guardViolations g guard) fun v =>
      ∃ field position number, (GuardField.numbers guard field)[position]? = some number ∧
        field.kind.count s ≤ number ∧ v = .guard g field position number := by
  have list : ∀ field : GuardField, s.Enumerates (List.IsPrefix ([1, g] ++ [field.order]))
      (outOfBounds field.kind.noun (field.kind.count s) (.malformedGuard g) (field.numbers guard))
      fun v => ∃ position number, (field.numbers guard)[position]? = some number ∧
        field.kind.count s ≤ number ∧ v = .guard g field position number := fun field =>
    .outOfBounds field.kind (fun _ _ => rfl) (fun _ _ => rfl) (field.numbers guard)
  refine ((list .reads).append (list .enablers).last).under.congr fun v => ?_
  constructor
  · rintro (found | found)
    · exact ⟨.reads, found⟩
    · exact ⟨.enablers, found⟩
  · rintro ⟨field, found⟩
    cases field with
    | reads => exact .inl found
    | enablers => exact .inr found

theorem enumerates_transition (t : Nat) (transition : Transition) :
    s.Enumerates (List.IsPrefix [2, t]) (s.transitionViolations t transition) fun v =>
      (transition.processes = [] ∧ v = .untagged t) ∨
        ∃ field position number,
          (TransitionField.numbers transition field)[position]? = some number ∧
          field.kind.count s ≤ number ∧ v = .transition t field position number := by
  have untagged : s.Enumerates (List.IsPrefix ([2, t] ++ [0]))
      (if transition.processes.isEmpty then [.malformedTransition t "no process tag"] else [])
      fun v => transition.processes.isEmpty = true ∧ v = .untagged t :=
    Enumerates.single (.untagged t) (List.prefix_refl [2, t, 0])
  have list : ∀ field : TransitionField, s.Enumerates (List.IsPrefix ([2, t] ++ [field.order]))
      (outOfBounds field.kind.noun (field.kind.count s) (.malformedTransition t)
        (field.numbers transition))
      fun v => ∃ position number, (field.numbers transition)[position]? = some number ∧
        field.kind.count s ≤ number ∧ v = .transition t field position number := fun field =>
    .outOfBounds field.kind (fun _ _ => rfl) (fun _ _ => rfl) (field.numbers transition)
  have lists := (list .processes).append ((list .reads).append ((list .writes).append
    (list .guards).last))
  rw [transitionViolations, List.append_assoc, List.append_assoc, List.append_assoc]
  refine (untagged.append lists).under.congr fun v => or_congr (by simp) ?_
  constructor
  · rintro (found | found | found | found)
    · exact ⟨.processes, found⟩
    · exact ⟨.reads, found⟩
    · exact ⟨.writes, found⟩
    · exact ⟨.guards, found⟩
  · rintro ⟨field, found⟩
    cases field with
    | processes => exact .inl found
    | reads => exact .inr (.inl found)
    | writes => exact .inr (.inr (.inl found))
    | guards => exact .inr (.inr (.inr found))

theorem enumerates_pair (position : Nat) (pair : Nat × Nat) :
    s.Enumerates (List.IsPrefix [3, position]) (s.pairViolations pair) fun v =>
      (∃ part number, [pair.1, pair.2][part]? = some number ∧ s.guards.size ≤ number ∧
        v = .pair position part number) ∨ pair.1 = pair.2 ∧ v = .itself position pair.1 := by
  have numbers : s.Enumerates (List.IsPrefix ([3, position] ++ [0]))
      (outOfBounds "guard" s.guards.size pairComplaint [pair.1, pair.2])
      fun v => ∃ part number, [pair.1, pair.2][part]? = some number ∧ s.guards.size ≤ number ∧
        v = .pair position part number :=
    Enumerates.outOfBounds .ofGuard (fun _ _ => rfl) (fun _ _ => rfl) [pair.1, pair.2]
  have itself : s.Enumerates (List.IsPrefix ([3, position] ++ [1]))
      (if pair.1 = pair.2 then [.malformedGuard pair.1 "declared exclusive with itself"] else [])
      fun v => pair.1 = pair.2 ∧ v = .itself position pair.1 :=
    Enumerates.single (.itself position pair.1) (List.prefix_refl [3, position, 1])
  exact (numbers.append itself.last).under

/-- **What is found wrong are the violations**, each once and in the order of their places. -/
theorem enumerates_violations : s.Enumerates (List.IsPrefix []) s.violations s.Violates := by
  have process : s.Enumerates (List.IsPrefix ([] ++ [0])) _ _ := enumerates_process
  have guards := Enumerates.entries ([] ++ [1]) s.guards.toList fun g guard _ =>
    enumerates_guard (s := s) g guard
  have transitions := Enumerates.entries ([] ++ [2]) s.transitions.toList fun t transition _ =>
    enumerates_transition (s := s) t transition
  have pairs := Enumerates.entries ([] ++ [3]) s.exclusiveGuards fun position pair _ =>
    enumerates_pair (s := s) position pair
  rw [violations, List.append_assoc, List.append_assoc, flatMap_eq_zipIdx s.exclusiveGuards]
  refine (process.append (guards.append (transitions.append pairs.last))).under.congr fun v => ?_
  simp only [Array.getElem?_toList]
  constructor
  · rintro (⟨none, rfl⟩ | ⟨g, guard, known, field, position, number, listed, large, rfl⟩ |
      ⟨t, transition, known, ⟨untagged, rfl⟩ | ⟨field, position, number, listed, large, rfl⟩⟩ |
      ⟨position, pair, known, ⟨part, number, listed, large, rfl⟩ | ⟨same, rfl⟩⟩)
    · exact none
    · exact ⟨guard, known, listed, large⟩
    · exact ⟨transition, known, untagged⟩
    · exact ⟨transition, known, listed, large⟩
    · exact ⟨pair, known, listed, large⟩
    · show s.exclusiveGuards[position]? = some (pair.1, pair.1)
      rw [known]
      exact congrArg some (Prod.ext rfl same.symm)
  · intro violates
    cases v with
    | noProcess => exact .inl ⟨violates, rfl⟩
    | guard g field position number =>
      obtain ⟨guard, known, listed, large⟩ := violates
      exact .inr (.inl ⟨g, guard, known, field, position, number, listed, large, rfl⟩)
    | untagged t =>
      obtain ⟨transition, known, untagged⟩ := violates
      exact .inr (.inr (.inl ⟨t, transition, known, .inl ⟨untagged, rfl⟩⟩))
    | transition t field position number =>
      obtain ⟨transition, known, listed, large⟩ := violates
      exact .inr (.inr (.inl
        ⟨t, transition, known, .inr ⟨field, position, number, listed, large, rfl⟩⟩))
    | pair position part number =>
      obtain ⟨pair, known, listed, large⟩ := violates
      exact .inr (.inr (.inr ⟨position, pair, known, .inl ⟨part, number, listed, large, rfl⟩⟩))
    | itself position g =>
      exact .inr (.inr (.inr ⟨position, (g, g), violates, .inr ⟨rfl, rfl⟩⟩))

end TransitionSystem

/-- **The check is exact.** A description whose matrices fit in memory is analysed if it is well
formed. Otherwise it is refused for the violation that comes before all others. Making the analysis
in passes ends in the same way, and it never breaks off. -/
theorem Analysis.validation_exact {s : TransitionSystem} (memory : s.fitsMemory = true) :
    assemble s = ofSystem s ∧
      ((∃ a, ofSystem s = .ok a) ↔ s.WellFormed) ∧
      (∀ cause, ofSystem s ≠ .error (.abort cause)) ∧
      ∀ cause, ofSystem s = .error (.error cause) ↔
        ∃ v, s.Violates v ∧ (∀ w, s.Violates w → w = v ∨ v.Before w) ∧ cause = s.complaint v := by
  have checks := checks_ofSystem memory
  refine ⟨assemble_eq memory, ⟨?_, ?_⟩, checks.ne_abort, fun cause => ?_⟩
  · intro analysed
    obtain ⟨a, made⟩ := analysed
    exact (ofSystem_eq_ok_iff.mp made).2.1
  · intro wellFormed
    exact ⟨ofValid s, ofSystem_eq_ok_iff.mpr ⟨memory, wellFormed, rfl⟩⟩
  · rw [checks.error_iff]
    exact TransitionSystem.enumerates_violations.head?_eq_some_iff

/-- A description with faults in every pass: a guard is enabled by a transition that does not exist,
a transition has no tag and reads a variable that does not exist, and a guard excludes itself. -/
def manyFaults : TransitionSystem where
  variableCount := 2
  processCount := 1
  transitions := #[⟨"", [], [0, 5], [1], [0]⟩, ⟨"", [0, 3], [], [], []⟩]
  guards := #[⟨[0], none⟩, ⟨[1], some [1, 7, 2]⟩]
  exclusiveGuards := [(1, 1)]

theorem Analysis.validation_exact_manyFaults :
    manyFaults.fitsMemory = true ∧
      assemble manyFaults = .error (.error (.malformedGuard 1 "transition 7 out of range 0..2")) ∧
      ∃ v, manyFaults.Violates v ∧ (∀ w, manyFaults.Violates w → w = v ∨ v.Before w) ∧
        .malformedGuard 1 "transition 7 out of range 0..2" = manyFaults.complaint v := by
  have memory : manyFaults.fitsMemory = true := by decide
  have refused : ofSystem manyFaults
      = .error (.error (.malformedGuard 1 "transition 7 out of range 0..2")) := rfl
  obtain ⟨same, _, _, first⟩ := validation_exact memory
  exact ⟨memory, same.trans refused, (first _).mp refused⟩

end StateSpace

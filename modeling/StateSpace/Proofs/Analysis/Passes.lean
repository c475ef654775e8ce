/-
**The passes over a description.**

`Analysis.ofSystem` looks for violations first and computes the relations afterwards. The same
analysis can be made in a few passes over the description. They check each number right before it is
used, they fill the matrices cell by cell with calls that break off out of bounds, and later passes
read the matrices of earlier ones:

1. the guards: what they read, and what is declared to make them true;
2. the transitions: their tags, what they read and write, and their guards, whose rows of read
   variables are poured into the row of the transition;
3. the guards of which nothing is declared: the transitions that write what they read;
4. the pairs of guards that exclude one another.

Each pass has a rule for its step, with the complaints about the entry it looks at and an invariant
over the entries gone through, and from it a rule for the whole pass:

* `TransitionSystem.checks_guards` — the first pass knows what guards read.
* `TransitionSystem.checks_transitions` — the second one knows the footprints of transitions,
  `Footprints.Reflects`.
* `TransitionSystem.checks_enabling` — the third one knows what can make a guard true.
* `TransitionSystem.checks_pairs` — the fourth one knows which guards exclude one another.
-/

import StateSpace.Proofs.Analysis.Checking
import StateSpace.Proofs.Analysis.Reflects

namespace StateSpace

/-- The footprints of transitions, as far as they are known. -/
structure Footprints where
  /-- The process tags of each transition, ascending. -/
  processes : Array (List Nat)
  /-- The guards of each transition, ascending. -/
  guards : Array (List Nat)
  read : BitMatrix
  write : BitMatrix

namespace TransitionSystem

/-! ### The passes -/

/-- Looks at a guard: what it reads, and what is declared to make it true. -/
def guardStep (s : TransitionSystem) (known : BitMatrix × BitMatrix) (entry : Guard × Nat) :
    Except Failure (BitMatrix × BitMatrix) := do
  let complaint := Error.malformedGuard entry.2
  let reads ← known.1.markRow "variable" s.variableCount complaint entry.2 entry.1.reads
  let enabling ← known.2.markRow "transition" s.transitions.size complaint entry.2
    (entry.1.enablers.getD [])
  return (reads, enabling)

/-- The tags of a transition, each of them checked. -/
def checkTags (s : TransitionSystem) (complaint : String → Error) (tags : List Nat) :
    Except Failure (List Nat) :=
  tags.foldlM (fun checked tag => do
    return checked ++ [← checkNumber "process" s.processCount complaint tag]) []

/-- The guards of a transition, each of them checked, and the row of what the transition reads with
what they read. -/
def pourGuards (s : TransitionSystem) (complaint : String → Error) (guardRead : BitMatrix)
    (row : Nat) (read : BitMatrix) (guards : List Nat) : Except Failure (List Nat × BitMatrix) :=
  guards.foldlM (fun poured guard => do
    let checked ← checkNumber "guard" s.guards.size complaint guard
    let read ← orAbort (poured.2.uniteRow row guardRead checked)
    return (poured.1 ++ [checked], read)) ([], read)

/-- Looks at a transition. -/
def transitionStep (s : TransitionSystem) (guardRead : BitMatrix) (known : Footprints)
    (entry : Transition × Nat) : Except Failure Footprints := do
  let complaint := Error.malformedTransition entry.2
  refuseIf entry.1.processes.isEmpty (complaint "no process tag")
  let tags ← s.checkTags complaint entry.1.processes
  let read ← known.read.markRow "variable" s.variableCount complaint entry.2 entry.1.reads
  let write ← known.write.markRow "variable" s.variableCount complaint entry.2 entry.1.writes
  let poured ← s.pourGuards complaint guardRead entry.2 read entry.1.guards
  return { processes := known.processes.push (ascending tags)
           guards := known.guards.push (ascending poured.1)
           read := poured.2
           write := write }

/-- Looks at a guard again: without a declaration, the transitions that write what it reads can make
it true. -/
def enablingStep (s : TransitionSystem) (write guardRead enabling : BitMatrix)
    (entry : Guard × Nat) : Except Failure BitMatrix :=
  match entry.1.enablers with
  | some _ => .ok enabling
  | none => (List.range s.transitions.size).foldlM (fun enabling t =>
      enabling.markIf entry.2 t (orAbort (write.rowsMeet t guardRead entry.2))) enabling

/-- Looks at a pair of guards that exclude one another. -/
def pairStep (s : TransitionSystem) (exclusive : BitMatrix) (pair : Nat × Nat) :
    Except Failure BitMatrix := do
  let g ← checkNumber "guard" s.guards.size pairComplaint pair.1
  let h ← checkNumber "guard" s.guards.size pairComplaint pair.2
  refuseIf (g == h) (.malformedGuard g "declared exclusive with itself")
  orAbort (exclusive.setBoth g h)

end TransitionSystem

/-- The footprints are those of a description. -/
structure Footprints.Reflects (known : Footprints) (s : TransitionSystem) : Prop where
  processes : known.processes = s.transitions.map fun transition => ascending transition.processes
  guards : known.guards = s.transitions.map fun transition => ascending transition.guards
  read : known.read.Holds s.transitions.size s.variableCount s.Reads
  write : known.write.Holds s.transitions.size s.variableCount s.Writes

/-! ### Entries that were gone through -/

/-- The numbers in the rows of numbered entries, after one more of them. -/
theorem exists_mem_concat {α : Type} {done : List (α × Nat)} {entry : α × Nat} {row : Nat}
    {p : α → Prop} :
    (∃ x, (x, row) ∈ done ++ [entry] ∧ p x) ↔
      (∃ x, (x, row) ∈ done ∧ p x) ∨ row = entry.2 ∧ p entry.1 := by
  simp only [List.mem_append, List.mem_singleton, or_and_right, exists_or]
  refine or_congr_right ?_
  constructor
  · rintro ⟨x, rfl, fact⟩
    exact ⟨rfl, fact⟩
  · rintro ⟨rfl, fact⟩
    exact ⟨entry.1, rfl, fact⟩

/-- The numbered entries of an array. -/
theorem mem_zipIdx_toList {α : Type} {entries : Array α} {entry : α} {number : Nat} :
    (entry, number) ∈ entries.toList.zipIdx ↔ entries[number]? = some entry := by
  rw [List.mem_zipIdx_iff_getElem?, Array.getElem?_toList]

theorem lt_of_mem_zipIdx {α : Type} {entries : Array α} {entry : α × Nat}
    (member : entry ∈ entries.toList.zipIdx) : entry.2 < entries.size :=
  (Array.getElem?_eq_some_iff.mp (mem_zipIdx_toList.mp member)).1

/-- The matrices over a description whose matrices fit in memory can be addressed. -/
structure TransitionSystem.Addressable (s : TransitionSystem) : Prop where
  footprints : BitMatrix.Addressable s.transitions.size s.variableCount
  guardReads : BitMatrix.Addressable s.guards.size s.variableCount
  enabling : BitMatrix.Addressable s.guards.size s.transitions.size
  guards : BitMatrix.Addressable s.guards.size s.guards.size
  transitions : BitMatrix.Addressable s.transitions.size s.transitions.size

theorem TransitionSystem.addressable_of_fitsMemory {s : TransitionSystem}
    (memory : s.fitsMemory = true) : s.Addressable := by
  simp only [fitsMemory, footprintsFit, Bool.and_eq_true] at memory
  obtain ⟨⟨⟨⟨footprints, guardReads⟩, enabling⟩, guards⟩, transitions⟩ := memory
  have fewGuards := BitMatrix.lt_size_of_fitsMemory guards
  have fewTransitions := BitMatrix.lt_size_of_fitsMemory transitions
  exact ⟨⟨fewTransitions, footprints⟩, ⟨fewGuards, guardReads⟩, ⟨fewGuards, enabling⟩,
    ⟨fewGuards, guards⟩, ⟨fewTransitions, transitions⟩⟩

namespace TransitionSystem

variable {s : TransitionSystem} {complaint : String → Error}

/-! ### Guards -/

/-- What the first pass knows of the guards that it has gone through. -/
structure GuardsKnown (s : TransitionSystem) (done : List (Guard × Nat))
    (known : BitMatrix × BitMatrix) : Prop where
  reads : known.1.Holds s.guards.size s.variableCount
    fun g v => ∃ guard, (guard, g) ∈ done ∧ v ∈ guard.reads
  enabling : known.2.Holds s.guards.size s.transitions.size
    fun g t => ∃ guard, (guard, g) ∈ done ∧ t ∈ guard.enablers.getD []

theorem checks_guardStep {done : List (Guard × Nat)} {entry : Guard × Nat}
    {known : BitMatrix × BitMatrix} (inside : entry.2 < s.guards.size)
    (earlier : s.GuardsKnown done known) :
    Checks (s.guardViolations entry.2 entry.1) (s.GuardsKnown (done ++ [entry]))
      (s.guardStep known entry) := by
  refine (earlier.reads.checks_markRow inside).bind fun reads filled => ?_
  refine (earlier.enabling.checks_markRow inside).bind_ok fun enabling filled' => ?_
  refine .pure ⟨filled.congr fun g v => ?_, filled'.congr fun g t => ?_⟩
  · rw [exists_mem_concat]
  · rw [exists_mem_concat]

/-- The first pass. -/
theorem checks_guards {known : BitMatrix × BitMatrix}
    (noRead : known.1.Holds s.guards.size s.variableCount fun _ _ => False)
    (noEnabler : known.2.Holds s.guards.size s.transitions.size fun _ _ => False) :
    Checks (s.guards.toList.zipIdx.flatMap fun entry => s.guardViolations entry.2 entry.1)
      (s.GuardsKnown s.guards.toList.zipIdx) (s.guards.toList.zipIdx.foldlM s.guardStep known) := by
  have begins : s.GuardsKnown [] known := ⟨noRead.congr (by simp), noEnabler.congr (by simp)⟩
  refine Checks.foldlM s.GuardsKnown begins ?_
  intro done entry known member earlier
  exact checks_guardStep (lt_of_mem_zipIdx member) earlier

theorem GuardsKnown.holds_guardReads {known : BitMatrix × BitMatrix}
    (all : s.GuardsKnown s.guards.toList.zipIdx known) :
    known.1.Holds s.guards.size s.variableCount s.GuardReads := by
  refine all.reads.congr fun g v => ?_
  simp only [mem_zipIdx_toList]
  rfl

/-! ### Transitions -/

theorem checks_checkTags {tags : List Nat} :
    Checks (outOfBounds "process" s.processCount complaint tags) (fun checked => checked = tags)
      (s.checkTags complaint tags) := by
  rw [outOfBounds_eq_flatMap]
  refine Checks.foldlM (fun done (checked : List Nat) => checked = done) rfl ?_
  intro done tag checked _ same
  refine checks_checkNumber.bind_ok fun number passed => .pure ?_
  rw [same, passed.1]

/-- The rows of the guards are poured into the row of the transition. -/
theorem checks_pourGuards {guardRead read : BitMatrix} {row : Nat} {guards : List Nat}
    {related related' : Nat → Nat → Prop} (addressable : s.Addressable)
    (inside : row < s.transitions.size)
    (guardReads : guardRead.Holds s.guards.size s.variableCount related')
    (reads : read.Holds s.transitions.size s.variableCount related) :
    Checks (outOfBounds "guard" s.guards.size complaint guards)
      (fun poured => poured.1 = guards ∧ poured.2.Holds s.transitions.size s.variableCount
        fun t v => related t v ∨ t = row ∧ ∃ g ∈ guards, related' g v)
      (s.pourGuards complaint guardRead row read guards) := by
  rw [outOfBounds_eq_flatMap]
  refine Checks.foldlM (fun done (poured : List Nat × BitMatrix) => poured.1 = done ∧
    poured.2.Holds s.transitions.size s.variableCount
      fun t v => related t v ∨ t = row ∧ ∃ g ∈ done, related' g v) ⟨rfl, ?_⟩ ?_
  · exact reads.congr fun t v => by simp
  · intro done guard poured _ earlier
    refine checks_checkNumber.bind_ok fun g passed => ?_
    obtain ⟨rfl, known⟩ := passed
    refine (earlier.2.checks_uniteRow guardReads addressable.footprints addressable.guardReads
      inside known).ok_bind fun read filled => ?_
    refine .pure ⟨by rw [earlier.1], filled.congr fun t v => ?_⟩
    simp only [List.mem_append, List.mem_singleton, or_and_right, exists_or, exists_eq_left,
      and_or_left, or_assoc]

/-- What the second pass knows of the transitions that it has gone through. -/
structure TransitionsKnown (s : TransitionSystem) (done : List (Transition × Nat))
    (known : Footprints) : Prop where
  processes : known.processes = (done.map fun entry => ascending entry.1.processes).toArray
  guards : known.guards = (done.map fun entry => ascending entry.1.guards).toArray
  read : known.read.Holds s.transitions.size s.variableCount fun t v =>
    ∃ transition, (transition, t) ∈ done ∧
      (v ∈ transition.reads ∨ ∃ g ∈ transition.guards, s.GuardReads g v)
  write : known.write.Holds s.transitions.size s.variableCount fun t v =>
    ∃ transition, (transition, t) ∈ done ∧ v ∈ transition.writes

theorem checks_transitionStep {guardRead : BitMatrix} {done : List (Transition × Nat)}
    {entry : Transition × Nat} {known : Footprints} (addressable : s.Addressable)
    (inside : entry.2 < s.transitions.size)
    (guardReads : guardRead.Holds s.guards.size s.variableCount s.GuardReads)
    (earlier : s.TransitionsKnown done known) :
    Checks (s.transitionViolations entry.2 entry.1) (s.TransitionsKnown (done ++ [entry]))
      (s.transitionStep guardRead known entry) := by
  simp only [transitionViolations, List.append_assoc]
  refine checks_refuseIf.bind fun _ _ => ?_
  refine checks_checkTags.bind fun tags sameTags => ?_
  refine (earlier.read.checks_markRow inside).bind fun read own => ?_
  refine (earlier.write.checks_markRow inside).bind fun write written => ?_
  refine (checks_pourGuards addressable inside guardReads own).bind_ok fun poured all => ?_
  refine .pure ⟨?_, ?_, all.2.congr fun t v => ?_, written.congr fun t v => ?_⟩
  · simp [earlier.processes, sameTags]
  · simp [earlier.guards, all.1]
  · rw [exists_mem_concat, or_assoc, ← and_or_left]
  · rw [exists_mem_concat]

/-- The second pass knows the footprints in the end. -/
theorem TransitionsKnown.reflects {known : Footprints}
    (all : s.TransitionsKnown s.transitions.toList.zipIdx known) :
    known.Reflects s := by
  have lists : ∀ f : Transition → List Nat,
      (s.transitions.toList.zipIdx.map fun entry => f entry.1).toArray = s.transitions.map f := by
    intro f
    have numbered : s.transitions.toList.zipIdx.map (fun entry => f entry.1)
        = (s.transitions.toList.zipIdx.map Prod.fst).map f := List.map_map.symm
    rw [numbered, List.zipIdx_map_fst, ← Array.toList_map, Array.toArray_toList]
  refine ⟨all.processes.trans (lists fun transition => ascending transition.processes),
    all.guards.trans (lists fun transition => ascending transition.guards),
    all.read.congr fun t v => ?_, all.write.congr fun t v => ?_⟩
  · simp only [mem_zipIdx_toList, and_or_left, exists_or]
    refine or_congr_right ?_
    constructor
    · rintro ⟨transition, found, g, member, readsIt⟩
      exact ⟨g, ⟨transition, found, member⟩, readsIt⟩
    · rintro ⟨g, ⟨transition, found, member⟩, readsIt⟩
      exact ⟨transition, found, g, member, readsIt⟩
  · simp only [mem_zipIdx_toList]
    rfl

/-- The second pass. -/
theorem checks_transitions {guardRead read write : BitMatrix} (addressable : s.Addressable)
    (guardReads : guardRead.Holds s.guards.size s.variableCount s.GuardReads)
    (noRead : read.Holds s.transitions.size s.variableCount fun _ _ => False)
    (noWrite : write.Holds s.transitions.size s.variableCount fun _ _ => False) :
    Checks
      (s.transitions.toList.zipIdx.flatMap fun entry => s.transitionViolations entry.2 entry.1)
      (fun known : Footprints => known.Reflects s)
      (s.transitions.toList.zipIdx.foldlM (s.transitionStep guardRead)
        ⟨#[], #[], read, write⟩) := by
  have begins : s.TransitionsKnown [] ⟨#[], #[], read, write⟩ :=
    ⟨rfl, rfl, noRead.congr (by simp), noWrite.congr (by simp)⟩
  refine (Checks.foldlM s.TransitionsKnown begins ?_).imp fun known all => all.reflects
  intro done entry known member earlier
  exact checks_transitionStep addressable (lt_of_mem_zipIdx member) guardReads earlier

/-! ### Guards of which nothing is declared -/

/-- The row of a guard is filled with the transitions that write what it reads. -/
theorem checks_writers {write guardRead enabling : BitMatrix} {related : Nat → Nat → Prop} {g : Nat}
    (addressable : s.Addressable) (inside : g < s.guards.size)
    (writes : write.Holds s.transitions.size s.variableCount s.Writes)
    (guardReads : guardRead.Holds s.guards.size s.variableCount s.GuardReads)
    (earlier : enabling.Holds s.guards.size s.transitions.size related) :
    Checks []
      (fun enabling' : BitMatrix => enabling'.Holds s.guards.size s.transitions.size
        fun h t => related h t ∨ h = g ∧ ∃ v, s.Writes t v ∧ s.GuardReads g v)
      ((List.range s.transitions.size).foldlM (fun enabling t =>
        enabling.markIf g t (orAbort (write.rowsMeet t guardRead g))) enabling) := by
  refine (Checks.foldlM_ok (fun (done : List Nat) (enabling' : BitMatrix) =>
    enabling'.Holds s.guards.size s.transitions.size fun h t => related h t ∨
      (h = g ∧ t ∈ done) ∧ ∃ v, s.Writes t v ∧ s.GuardReads g v) (earlier.congr (by simp)) ?_).imp
    fun _ filled => filled.congr fun h t => or_congr_right ?_
  · intro done t enabling' member filled
    have known : t < s.transitions.size := List.mem_range.mp member
    have meets := writes.checks_rowsMeet guardReads addressable.footprints addressable.guardReads
      known inside
    refine (filled.checks_markIf inside known meets).imp fun _ grown => grown.congr fun h u => ?_
    rw [or_assoc, List.mem_append, List.mem_singleton]
    refine or_congr_right ?_
    by_cases same : u = t
    · rw [same]
      grind
    · simp [same]
  · -- in the end all transitions were looked at
    rw [and_assoc]
    refine and_congr_right fun _ => and_iff_right_of_imp ?_
    intro shared
    obtain ⟨v, writesIt, _⟩ := shared
    exact List.mem_range.mpr writesIt.lt

/-- One more guard; what is declared of guards stays as it is. -/
theorem checks_enablingStep {write guardRead enabling : BitMatrix} {declared : Nat → Nat → Prop}
    {done : List (Guard × Nat)} {entry : Guard × Nat} (addressable : s.Addressable)
    (inside : entry.2 < s.guards.size)
    (writes : write.Holds s.transitions.size s.variableCount s.Writes)
    (guardReads : guardRead.Holds s.guards.size s.variableCount s.GuardReads)
    (earlier : enabling.Holds s.guards.size s.transitions.size fun g t => declared g t ∨
      ∃ guard, (guard, g) ∈ done ∧ guard.enablers = none ∧ ∃ v, s.Writes t v ∧ s.GuardReads g v) :
    Checks [] (fun enabling' : BitMatrix =>
        enabling'.Holds s.guards.size s.transitions.size fun g t => declared g t ∨
          ∃ guard, (guard, g) ∈ done ++ [entry] ∧ guard.enablers = none ∧
            ∃ v, s.Writes t v ∧ s.GuardReads g v)
      (s.enablingStep write guardRead enabling entry) := by
  unfold enablingStep
  cases listed : entry.1.enablers with
  | some enablers =>
    refine .pure (earlier.congr fun g t => ?_)
    rw [exists_mem_concat]
    simp [listed]
  | none =>
    refine (checks_writers addressable inside writes guardReads earlier).imp
      fun _ filled => filled.congr fun g t => ?_
    rw [exists_mem_concat, or_assoc]
    refine or_congr_right (or_congr_right (and_congr_right fun same => ?_))
    rw [same]
    exact (and_iff_right listed).symm

/-- What can make a guard true, in terms of the two passes over the guards. -/
theorem enables_iff {t g : Nat} :
    s.Enables t g ↔
      (∃ guard, (guard, g) ∈ s.guards.toList.zipIdx ∧ t ∈ guard.enablers.getD []) ∨
        ∃ guard, (guard, g) ∈ s.guards.toList.zipIdx ∧ guard.enablers = none ∧
          ∃ v, s.Writes t v ∧ s.GuardReads g v := by
  simp only [mem_zipIdx_toList]
  constructor
  · rintro ⟨guard, found, able⟩
    cases listed : guard.enablers with
    | some enablers =>
      rw [listed] at able
      refine .inl ⟨guard, found, ?_⟩
      rw [listed]
      exact able
    | none =>
      rw [listed] at able
      obtain ⟨v, readsIt, writesIt⟩ := able
      exact .inr ⟨guard, found, listed, v, writesIt, guard, found, readsIt⟩
  · rintro (⟨guard, found, member⟩ | ⟨guard, found, listed, v, writesIt, other, found', readsIt⟩)
    · refine ⟨guard, found, ?_⟩
      cases listed : guard.enablers with
      | some enablers =>
        rw [listed] at member
        exact member
      | none =>
        rw [listed] at member
        cases member
    · obtain rfl : guard = other := Option.some.inj (found.symm.trans found')
      refine ⟨guard, found, ?_⟩
      rw [listed]
      exact ⟨v, readsIt, writesIt⟩

/-- The third pass. -/
theorem checks_enabling {write : BitMatrix} {guarded : BitMatrix × BitMatrix}
    (addressable : s.Addressable)
    (writes : write.Holds s.transitions.size s.variableCount s.Writes)
    (all : s.GuardsKnown s.guards.toList.zipIdx guarded) :
    Checks []
      (fun enabling : BitMatrix =>
        enabling.Holds s.guards.size s.transitions.size fun g t => s.Enables t g)
      (s.guards.toList.zipIdx.foldlM (s.enablingStep write guarded.1) guarded.2) := by
  have pass := Checks.foldlM_ok (fun (done : List (Guard × Nat)) (enabling : BitMatrix) =>
    enabling.Holds s.guards.size s.transitions.size fun g t =>
      (∃ guard, (guard, g) ∈ s.guards.toList.zipIdx ∧ t ∈ guard.enablers.getD []) ∨
        ∃ guard, (guard, g) ∈ done ∧ guard.enablers = none ∧
          ∃ v, s.Writes t v ∧ s.GuardReads g v) (all.enabling.congr (by simp))
    fun done entry enabling member earlier =>
      checks_enablingStep addressable (lt_of_mem_zipIdx member) writes all.holds_guardReads earlier
  exact pass.imp fun enabling filled => filled.congr fun g t => enables_iff.symm

/-! ### Pairs of guards -/

theorem checks_pairStep {exclusive : BitMatrix} {done : List (Nat × Nat)} {pair : Nat × Nat}
    (earlier : exclusive.Holds s.guards.size s.guards.size
      fun g h => (g, h) ∈ done ∨ (h, g) ∈ done) :
    Checks (s.pairViolations pair)
      (fun exclusive' : BitMatrix => exclusive'.Holds s.guards.size s.guards.size
        fun g h => (g, h) ∈ done ++ [pair] ∨ (h, g) ∈ done ++ [pair])
      (s.pairStep exclusive pair) := by
  have complaints : s.pairViolations pair
      = outOfBounds "guard" s.guards.size pairComplaint [pair.1]
        ++ (outOfBounds "guard" s.guards.size pairComplaint [pair.2]
          ++ if pair.1 == pair.2 then [.malformedGuard pair.1 "declared exclusive with itself"]
            else []) := by
    rw [pairViolations, outOfBounds_eq_flatMap, List.flatMap_cons, List.flatMap_singleton,
      List.append_assoc]
    simp only [beq_iff_eq]
  rw [complaints]
  refine checks_checkNumber.bind fun g passed => ?_
  obtain ⟨rfl, first⟩ := passed
  refine checks_checkNumber.bind fun h passed => ?_
  obtain ⟨rfl, second⟩ := passed
  refine checks_refuseIf.bind_ok fun _ _ => ?_
  refine checks_orAbort (earlier.setBoth_eq ⟨first, second⟩ ⟨second, first⟩)
    ((earlier.insertBoth ⟨first, second⟩ ⟨second, first⟩).congr fun g h => ?_)
  simp only [List.mem_append, List.mem_singleton, Prod.ext_iff]
  grind

/-- The pass over the exclusive pairs. -/
theorem checks_pairs {exclusive : BitMatrix}
    (noPair : exclusive.Holds s.guards.size s.guards.size fun _ _ => False) :
    Checks (s.exclusiveGuards.flatMap s.pairViolations)
      (fun exclusive' : BitMatrix => exclusive'.Holds s.guards.size s.guards.size s.Excludes)
      (s.exclusiveGuards.foldlM s.pairStep exclusive) := by
  refine Checks.foldlM (fun (done : List (Nat × Nat)) (exclusive' : BitMatrix) =>
    exclusive'.Holds s.guards.size s.guards.size fun g h => (g, h) ∈ done ∨ (h, g) ∈ done)
    (noPair.congr ?_) fun done pair exclusive' _ earlier => checks_pairStep earlier
  simp

end TransitionSystem

end StateSpace

/-
**Checking numbers while matrices are filled.**

* `Checks` — a computation that looks for complaints: it fails with the first of them, and where
  there are none it gives a value of which something holds. So it never breaks off. The rules are
  `Checks.bind` for one computation after the other, whose complaints come in this order, and
  `Checks.foldlM` for a loop, whose invariant speaks of the entries that were gone through.
* `checkNumber`, `refuseIf` — the two checks of a description, with the complaints
  `outOfBounds` and a single one.
* `BitMatrix.mark`, `BitMatrix.markIf`, `BitMatrix.markRow` — cells that are set by calls which
  break off outside the matrix. Their rules say which relation the matrix holds afterwards; a number
  that passed its check is a column, so the calls succeed.
-/

import StateSpace.Analysis.Validation
import StateSpace.Proofs.BitMatrix.Relation

namespace StateSpace

/-- **A computation that looks for complaints.** If there are any it fails with the first one, and
otherwise it gives a value of which `holds` is true. -/
def Checks {α : Type} (complaints : List Error) (holds : α → Prop) (result : Except Failure α) :
    Prop :=
  match complaints with
  | [] => ∃ value, result = .ok value ∧ holds value
  | first :: _ => result = .error (.error first)

namespace Checks

variable {α β : Type} {complaints more : List Error} {holds : α → Prop} {holds' : β → Prop}
  {result : Except Failure α} {next : α → Except Failure β}

theorem pure {value : α} (fact : holds value) : Checks [] holds (pure value) :=
  ⟨value, rfl, fact⟩

theorem imp {weaker : α → Prop} (checks : Checks complaints holds result)
    (implies : ∀ value, holds value → weaker value) : Checks complaints weaker result := by
  cases complaints with
  | nil =>
    obtain ⟨value, succeeds, fact⟩ := checks
    exact ⟨value, succeeds, implies value fact⟩
  | cons first rest => exact checks

/-- **One computation after the other**: the complaints of the first come first. -/
theorem bind (checks : Checks complaints holds result)
    (later : ∀ value, holds value → Checks more holds' (next value)) :
    Checks (complaints ++ more) holds' (result >>= next) := by
  cases complaints with
  | nil =>
    obtain ⟨value, rfl, fact⟩ := checks
    exact later value fact
  | cons first rest =>
    rw [show result = .error (.error first) from checks]
    rfl

/-- A computation that is followed by one without complaints. -/
theorem bind_ok (checks : Checks complaints holds result)
    (later : ∀ value, holds value → Checks [] holds' (next value)) :
    Checks complaints holds' (result >>= next) := by
  rw [← List.append_nil complaints]
  exact checks.bind later

/-- A computation without complaints that is followed by another one. -/
theorem ok_bind (checks : Checks [] holds result)
    (later : ∀ value, holds value → Checks more holds' (next value)) :
    Checks more holds' (result >>= next) :=
  checks.bind later

/-- **A loop**, whose invariant speaks of the entries that were gone through. -/
theorem foldlM {step : α → β → Except Failure α} {complaintsOf : β → List Error}
    (invariant : List β → α → Prop) {entries : List β} {start : α} (begins : invariant [] start)
    (keeps : ∀ done entry state, entry ∈ entries → invariant done state →
      Checks (complaintsOf entry) (invariant (done ++ [entry])) (step state entry)) :
    Checks (entries.flatMap complaintsOf) (invariant entries) (entries.foldlM step start) := by
  -- by induction on the entries that are left, for any entries that were gone through
  suffices run : ∀ (left done : List β) (state : α), (∀ entry ∈ left, entry ∈ entries) →
      invariant done state →
      Checks (left.flatMap complaintsOf) (invariant (done ++ left)) (left.foldlM step state) from
    run entries [] start (fun _ member => member) begins
  intro left
  induction left with
  | nil =>
    intro done state _ holds
    rw [List.append_nil]
    exact pure holds
  | cons entry rest ih =>
    intro done state inside holds
    rw [List.flatMap_cons, List.foldlM_cons]
    refine (keeps done entry state (inside entry List.mem_cons_self) holds).bind
      fun state' holds' => ?_
    have tail := ih (done ++ [entry]) state'
      (fun other member => inside other (List.mem_cons_of_mem _ member)) holds'
    rwa [List.append_assoc] at tail

/-- A loop without complaints. -/
theorem foldlM_ok {step : α → β → Except Failure α} (invariant : List β → α → Prop)
    {entries : List β} {start : α} (begins : invariant [] start)
    (keeps : ∀ done entry state, entry ∈ entries → invariant done state →
      Checks [] (invariant (done ++ [entry])) (step state entry)) :
    Checks [] (invariant entries) (entries.foldlM step start) := by
  have none : entries.flatMap (fun _ => ([] : List Error)) = [] :=
    List.flatMap_eq_nil_iff.mpr fun _ _ => rfl
  rw [← none]
  exact foldlM invariant begins keeps

/-- Two computations that look for the same complaints, and whose values are the same, are equal. -/
theorem result_eq {other : Except Failure α} {holds'' : α → Prop}
    (checks : Checks complaints holds result) (checks' : Checks complaints holds'' other)
    (same : ∀ value value', holds value → holds'' value' → value = value') : result = other := by
  cases complaints with
  | nil =>
    obtain ⟨value, rfl, fact⟩ := checks
    obtain ⟨value', rfl, fact'⟩ := checks'
    rw [same value value' fact fact']
  | cons first rest => exact Eq.trans checks (Eq.symm checks')

/-- It fails with the first complaint only. -/
theorem error_iff (checks : Checks complaints holds result) {cause : Error} :
    result = .error (.error cause) ↔ complaints.head? = some cause := by
  cases complaints with
  | nil =>
    obtain ⟨value, rfl, _⟩ := checks
    simp
  | cons first rest =>
    rw [show result = .error (.error first) from checks]
    simp

theorem ne_abort (checks : Checks complaints holds result) (cause : Abort) :
    result ≠ .error (.abort cause) := by
  cases complaints with
  | nil =>
    obtain ⟨value, rfl, _⟩ := checks
    simp
  | cons first rest =>
    rw [show result = .error (.error first) from checks]
    simp

/-- Two tests, the second of which is made if the first one fails. -/
theorem or {first second : Except Failure Bool} {P Q : Prop}
    (checks : Checks [] (fun found => found = true ↔ P) first)
    (checks' : Checks [] (fun found => found = true ↔ Q) second) :
    Checks [] (fun found => found = true ↔ P ∨ Q) (first <||> second) := by
  obtain ⟨found, rfl, told⟩ := checks
  obtain ⟨found', rfl, told'⟩ := checks'
  refine ⟨found || found', ?_, ?_⟩
  · cases found with
    | true => rfl
    | false => rfl
  · show (found || found') = true ↔ P ∨ Q
    rw [Bool.or_eq_true, told, told']

end Checks

/-! ### Checks of a description -/

/-- A number that lies below a bound, or the complaint about it. -/
def checkNumber (what : String) (bound : Nat) (complaint : String → Error) (number : Nat) :
    Except Failure Nat :=
  if number < bound then .ok number
  else .error (.error (complaint s!"{what} {number} out of range 0..{bound}"))

/-- Refuses to go on if something is wrong. -/
def refuseIf (wrong : Bool) (cause : Error) : Except Failure Unit :=
  if wrong then .error (.error cause) else .ok ()

variable {what : String} {bound number : Nat} {complaint : String → Error}

theorem checks_checkNumber :
    Checks (outOfBounds what bound complaint [number])
      (fun checked => checked = number ∧ number < bound)
      (checkNumber what bound complaint number) := by
  by_cases inside : number < bound
  · have none : outOfBounds what bound complaint [number] = [] := by
      simp [outOfBounds, inside]
    rw [none, checkNumber, if_pos inside]
    exact .pure ⟨rfl, inside⟩
  · have single : outOfBounds what bound complaint [number]
        = [complaint s!"{what} {number} out of range 0..{bound}"] := by
      simp [outOfBounds, Nat.le_of_not_lt inside]
    rw [single, checkNumber, if_neg inside]
    rfl

theorem checks_refuseIf {wrong : Bool} {cause : Error} :
    Checks (if wrong then [cause] else []) (fun _ => wrong = false) (refuseIf wrong cause) := by
  cases wrong with
  | true => rfl
  | false => exact ⟨(), rfl, rfl⟩

/-- The complaints about some numbers are made number by number. -/
theorem outOfBounds_eq_flatMap (numbers : List Nat) :
    outOfBounds what bound complaint numbers
      = numbers.flatMap fun number => outOfBounds what bound complaint [number] := by
  induction numbers with
  | nil => rfl
  | cons number rest ih =>
    rw [List.flatMap_cons, ← ih, ← List.singleton_append]
    simp only [outOfBounds, List.filter_append, List.map_append]

/-- A call that does not break off. -/
theorem checks_orAbort {α : Type} {call : Except Abort α} {value : α} {holds : α → Prop}
    (succeeds : call = .ok value) (fact : holds value) : Checks [] holds (orAbort call) := by
  rw [succeeds]
  exact .pure fact

namespace BitMatrix

/-! ### Cells by calls -/

/-- Sets a cell. -/
def mark (m : BitMatrix) (row col : Nat) : Except Failure BitMatrix := do
  let marked ← orAbort (m.set row col)
  return marked.1

/-- Sets a cell if a test says so. -/
def markIf (m : BitMatrix) (row col : Nat) (test : Except Failure Bool) :
    Except Failure BitMatrix := do
  if ← test then m.mark row col else return m

/-- Sets cells of a row, each of them once its column is checked. -/
def markRow (m : BitMatrix) (what : String) (bound : Nat) (complaint : String → Error) (row : Nat)
    (numbers : List Nat) : Except Failure BitMatrix :=
  numbers.foldlM (fun m number => do
    let col ← checkNumber what bound complaint number
    m.mark row col) m

variable {m other : BitMatrix} {rows cols rows' cols' row col row' : Nat}
  {related related' : Nat → Nat → Prop}

/-- A matrix that fits in memory can be made. -/
theorem checks_create (memory : fitsMemory rows cols = true) :
    Checks [] (fun m => m.Holds rows cols fun _ _ => False) (orAbort (create rows cols)) :=
  checks_orAbort (if_pos memory) (holds_empty rows cols)

/-- A row that is poured into a row. -/
theorem Holds.checks_uniteRow {target source : Nat} (holds : m.Holds rows cols related)
    (holds' : other.Holds rows' cols related') (addressable : Addressable rows cols)
    (addressable' : Addressable rows' cols) (targetInside : target < rows)
    (sourceInside : source < rows') :
    Checks []
      (fun m' : BitMatrix => m'.Holds rows cols
        fun r c => related r c ∨ r = target ∧ related' source c)
      (orAbort (m.uniteRow target other source)) :=
  checks_orAbort (holds.uniteRow_eq holds' addressable addressable' targetInside sourceInside)
    (holds.unite holds' fun _ => targetInside)

/-- A test whether two rows meet. -/
theorem Holds.checks_rowsMeet (holds : m.Holds rows cols related)
    (holds' : other.Holds rows' cols' related') (addressable : Addressable rows cols)
    (addressable' : Addressable rows' cols') (inside : row < rows) (inside' : row' < rows') :
    Checks [] (fun found => found = true ↔ ∃ c, related row c ∧ related' row' c)
      (orAbort (m.rowsMeet row other row')) :=
  checks_orAbort (holds.rowsMeet_eq holds' addressable addressable' inside inside')
    (holds.meets_iff holds')

theorem Holds.checks_mark (holds : m.Holds rows cols related) (rowInside : row < rows)
    (colInside : col < cols) :
    Checks [] (fun m' => m'.Holds rows cols fun r c => related r c ∨ r = row ∧ c = col)
      (m.mark row col) := by
  have sets : Checks [] (fun marked : BitMatrix × Bool =>
      marked.1.Holds rows cols fun r c => related r c ∨ r = row ∧ c = col)
      (orAbort (m.set row col)) :=
    checks_orAbort (holds.set_eq rowInside colInside) (holds.insert rowInside colInside)
  exact sets.ok_bind fun marked filled => .pure filled

theorem Holds.checks_markIf {test : Except Failure Bool} {P : Prop}
    (holds : m.Holds rows cols related) (rowInside : row < rows) (colInside : col < cols)
    (tests : Checks [] (fun found => found = true ↔ P) test) :
    Checks [] (fun m' => m'.Holds rows cols fun r c => related r c ∨ (r = row ∧ c = col) ∧ P)
      (m.markIf row col test) := by
  refine Checks.ok_bind tests fun found told => ?_
  by_cases set : found = true
  · rw [if_pos set]
    refine (holds.checks_mark rowInside colInside).imp fun m' grown => grown.congr fun r c => ?_
    rw [and_iff_left (told.mp set)]
  · rw [if_neg set]
    refine .pure (holds.congr fun r c => ?_)
    have fails : ¬ P := fun fact => set (told.mpr fact)
    simp [fails]

/-- **A row that is filled number by number**: the complaints are those about its numbers, and each
number that passes its check is a column. -/
theorem Holds.checks_markRow {numbers : List Nat} (holds : m.Holds rows cols related)
    (inside : row < rows) :
    Checks (outOfBounds what cols complaint numbers)
      (fun m' => m'.Holds rows cols fun r c => related r c ∨ r = row ∧ c ∈ numbers)
      (m.markRow what cols complaint row numbers) := by
  rw [outOfBounds_eq_flatMap]
  refine Checks.foldlM
    (fun (done : List Nat) (m' : BitMatrix) =>
      m'.Holds rows cols fun r c => related r c ∨ r = row ∧ c ∈ done) ?_ ?_
  · exact holds.congr fun r c => by simp
  · intro done number m' _ filled
    refine checks_checkNumber.bind_ok fun checked passed => ?_
    rw [passed.1]
    refine (filled.checks_mark inside passed.2).imp fun m'' grown => grown.congr fun r c => ?_
    rw [List.mem_append, List.mem_singleton, or_assoc, ← and_or_left]

end BitMatrix

end StateSpace

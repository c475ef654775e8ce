/-
**Decimal text.**

* `Decimal.digit?`, `Decimal.isDigit` — the ten digits and their values.
* `Decimal.ofDigits` — the number that some digits stand for.
* `Decimal.toWord?` — reads a counter of 64 bits.
-/

namespace StateSpace.Decimal

/-- The value of a digit. -/
def digit? (c : Char) : Option Nat :=
  if 48 ≤ c.toNat ∧ c.toNat ≤ 57 then some (c.toNat - 48) else none

/-- Whether a character is a digit. -/
def isDigit (c : Char) : Bool :=
  (digit? c).isSome

/-- The number that some digits stand for, the most significant one first. -/
def ofDigits (values : List Nat) : Nat :=
  values.foldl (fun number value => 10 * number + value) 0

/-- The number that the digits among some characters stand for. -/
def ofChars (characters : List Char) : Nat :=
  ofDigits (characters.filterMap digit?)

/-- The digits of a number after its plus sign, if it has one. -/
def unsigned : List Char → List Char
  | '+' :: digits => digits
  | digits => digits

/-- Reads a counter of 64 bits: digits, perhaps after a plus sign. -/
def toWord? (text : String) : Option Nat := do
  let values ← (unsigned text.toList).mapM digit?
  let number := ofDigits values
  if values.isEmpty || UInt64.size ≤ number then none else some number

end StateSpace.Decimal

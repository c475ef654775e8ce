/-
**Hexadecimal text.**

* `Hex.ofByte`, `Hex.ofBytes` — two digits per byte, the more significant one first.
* `Hex.ofWord` — a 64-bit word in sixteen digits.
* `Hex.toBytes?`, `Hex.toWord?` — the readers beside them.
-/

import StateSpace.Text.Decimal

namespace StateSpace.Hex

/-- The digit of a value below sixteen. -/
def digit (value : Nat) : Char :=
  if value < 10 then Char.ofNat (48 + value) else Char.ofNat (87 + value)

/-- The value of a digit, in either case. -/
def value? (c : Char) : Option Nat :=
  let code := c.toNat
  if 48 ≤ code ∧ code ≤ 57 then some (code - 48)
  else if 97 ≤ code ∧ code ≤ 102 then some (code - 87)
  else if 65 ≤ code ∧ code ≤ 70 then some (code - 55)
  else none

/-- The last `width` digits of a number, the most significant one first. -/
def digits (width number : Nat) : List Char :=
  match width with
  | 0 => []
  | rest + 1 => digits rest (number / 16) ++ [digit (number % 16)]

/-- A byte as two digits. -/
def ofByte (byte : UInt8) : String :=
  String.ofList (digits 2 byte.toNat)

/-- Bytes as digit pairs without a separator. -/
def ofBytes (bytes : List UInt8) : String :=
  String.ofList (bytes.flatMap fun byte => digits 2 byte.toNat)

/-- A word as sixteen digits. -/
def ofWord (word : UInt64) : String :=
  String.ofList (digits 16 word.toNat)

/-- The bytes that some digit pairs stand for. -/
def bytes? : List Char → Option (List UInt8)
  | [] => some []
  | [_] => none
  | high :: low :: rest => do
    let upper ← value? high
    let lower ← value? low
    let bytes ← bytes? rest
    return UInt8.ofNat (16 * upper + lower) :: bytes

/-- Reads digit pairs. -/
def toBytes? (text : String) : Option (List UInt8) :=
  bytes? text.toList

/-- Reads a word of 64 bits: digits, perhaps after a plus sign. -/
def toWord? (text : String) : Option UInt64 := do
  let values ← (Decimal.unsigned text.toList).mapM value?
  let number := values.foldl (fun number value => 16 * number + value) 0
  if values.isEmpty || UInt64.size ≤ number then none else some (UInt64.ofNat number)

end StateSpace.Hex

/-
**Numbers of JSON texts.**

* `Number` — a number as it is written: sign, digits before the point, digits after it, exponent.
* `Number.toNat?` — its value as a counter below a bound. Only digits stand for a counter, so that
  `-0`, `1.0` and `1e3` are none.
* `Number.toFloat?` — its value as a double. As many leading digits as fit in 64 bits are taken and
  the rest are ignored; the number so found is rounded to a double and multiplied or divided by a
  power of ten, itself a double. A value beyond the greatest double is none.
-/

namespace StateSpace

/-- **A number as it is written.** -/
structure Number where
  negative : Bool
  /-- The number before the point. -/
  whole : Nat
  /-- The digits after the point, if there is one. -/
  fraction : Option (List Nat)
  /-- The exponent, if there is one: whether it is negative, and its size. -/
  exponent : Option (Bool × Nat)
deriving DecidableEq

namespace Number

/-- A counter. -/
def ofNat (number : Nat) : Number :=
  ⟨false, number, none, none⟩

/-- An integer. -/
def ofInt (number : Int) : Number :=
  ⟨decide (number < 0), number.natAbs, none, none⟩

/-- **The value of a number as a counter**, if it is written with digits only and lies below a
bound. -/
def toNat? (bound : Nat) (number : Number) : Option Nat :=
  if number.negative || number.fraction.isSome || number.exponent.isSome then none
  else if number.whole < bound then some number.whole
  else none

/-- The leading digits of a number that fit in 64 bits, and how many were left out. -/
def leading (number : Nat) : Nat × Nat :=
  if number < UInt64.size then (number, 0)
  else
    let (digits, dropped) := leading (number / 10)
    (digits, dropped + 1)
termination_by number
decreasing_by
  have large : UInt64.size = 18446744073709551616 := rfl
  omega

/-- Appends digits to a number while it fits in 64 bits, and counts those appended. -/
def append (number : Nat) : List Nat → Nat × Nat
  | [] => (number, 0)
  | digit :: rest =>
    if 10 * number + digit < UInt64.size then
      let (digits, appended) := append (10 * number + digit) rest
      (digits, appended + 1)
    else (number, 0)

/-- A power of ten as a double. -/
def power (exponent : Nat) : Float :=
  Float.ofScientific 1 false exponent

/-- A double divided by a power of ten, in portions that are doubles. -/
def shrink (x : Float) (exponent : Nat) : Float :=
  if exponent ≤ 308 then x / power exponent
  else if x == 0.0 then x
  else shrink (x / power 308) (exponent - 308)
termination_by exponent
decreasing_by omega

/-- A double multiplied by a power of ten, unless that exceeds all doubles. -/
def grow (x : Float) (exponent : Nat) : Option Float :=
  if exponent ≤ 308 then
    let product := x * power exponent
    if product.isInf then none else some product
  else if x == 0.0 then some x
  else none

/-- A number times a power of ten. -/
def scale (digits : Nat) (exponent : Int) : Option Float :=
  let x := digits.toUInt64.toFloat
  if exponent < 0 then some (shrink x exponent.natAbs) else grow x exponent.natAbs

/-- The size of the number as a double. -/
def magnitude? (number : Number) : Option Float :=
  let (head, dropped) := leading number.whole
  let (digits, appended) := append head (number.fraction.getD [])
  let shift : Int := dropped - appended
  match number.exponent with
  | none => scale digits shift
  | some (negative, size) =>
    if 2147483647 < size then
      if digits = 0 || negative then some 0.0 else none
    else scale digits (if negative then shift - size else shift + size)

/-- **The number as a double**, if it is not beyond all doubles. -/
def toFloat? (number : Number) : Option Float :=
  number.magnitude?.map fun x => if number.negative then -x else x

/-- The number as text. -/
def render (number : Number) : String :=
  let sign := if number.negative then "-" else ""
  let whole := number.whole
  let fraction := match number.fraction with
    | none => ""
    | some digits => "." ++ String.join (digits.map fun digit => toString digit)
  let exponent := match number.exponent with
    | none => ""
    | some (negative, size) => (if negative then "e-" else "e") ++ toString size
  s!"{sign}{whole}{fraction}{exponent}"

end Number

end StateSpace

/-
**Numbers with three decimal places.**

* `Fixed.divEven` — division to the nearest integer, a half to the even neighbour.
* `Fixed.thousandths` — a binary fraction in thousandths, rounded so.
* `Fixed.ofFloat` — a double with three places. Its exact binary value is rounded once, so
  `0.0625` reads `0.062` and `0.1875` reads `0.188`.
-/

namespace StateSpace.Fixed

/-- The integer nearest to a quotient; of two equally near ones the even one. -/
def divEven (numerator denominator : Nat) : Nat :=
  let quotient := numerator / denominator
  let twice := 2 * (numerator % denominator)
  if twice < denominator then quotient
  else if denominator < twice then quotient + 1
  else if quotient % 2 = 0 then quotient else quotient + 1

/-- The value `mantissa * 2 ^ (exponent - 1075)` in thousandths. -/
def thousandths (mantissa exponent : Nat) : Nat :=
  if exponent < 1075 then divEven (mantissa * 1000) (1 <<< (1075 - exponent))
  else (mantissa * 1000) <<< (exponent - 1075)

/-- Three decimal places of a number of thousandths. -/
def places (count : Nat) : String :=
  let whole := count / 1000
  let tenths := count / 100 % 10
  let hundredths := count / 10 % 10
  let rest := count % 10
  s!"{whole}.{tenths}{hundredths}{rest}"

/-- A double with three decimal places. -/
def ofFloat (x : Float) : String :=
  let bits := x.toBits.toNat
  let mantissa := bits % (1 <<< 52)
  let exponent := (bits >>> 52) % 2048
  let sign := if bits.testBit 63 then "-" else ""
  if exponent = 2047 then
    if mantissa = 0 then sign ++ "inf" else "NaN"
  else if exponent = 0 then sign ++ places (thousandths mantissa 1)
  else sign ++ places (thousandths (mantissa + (1 <<< 52)) exponent)

end StateSpace.Fixed

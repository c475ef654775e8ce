/-
**Points in time.**

* `Time` — a day, a second of that day at universal time, and nanoseconds. In a leap second the
  nanoseconds run on past a whole second.
* `Time.parse?` — reads a date, a time and an offset, as in `2024-01-02T03:04:05.250+00:00`. The
  year may have a sign, other numbers have one or two digits, and blanks may stand before each
  part. A small `t` or a blank may stand for `T`. The offset is `Z`, `UTC`, or hours and minutes
  with a sign. The day has to lie in the calendar, both as it is written and at universal time.
* `Time.millisecondsUntil` — the time from one point to another in whole milliseconds.
-/

import StateSpace.Text.Decimal

namespace StateSpace

/-- **A point in time.** -/
structure Time where
  /-- Days since the first day of year 0. -/
  day : Int
  /-- The second of the day, at universal time. -/
  second : Int
  /-- At least a whole second in a leap second. -/
  nanosecond : Int
deriving DecidableEq

namespace Time

/-- Whether a year has a 29th of February. -/
def isLeap (year : Int) : Bool :=
  (year % 4 == 0 && year % 100 != 0) || year % 400 == 0

/-- The number of days of a month. -/
def daysInMonth (year : Int) (month : Nat) : Nat :=
  if month = 2 then (if isLeap year then 29 else 28)
  else if month = 4 ∨ month = 6 ∨ month = 9 ∨ month = 11 then 30
  else 31

/-- The days from the start of year 0 to the start of a year. -/
def daysBeforeYear (year : Int) : Int :=
  let past := year - 1
  365 * year + past / 4 - past / 100 + past / 400 + 1

/-- The days from the start of a year to the start of a month. -/
def daysBeforeMonth (year : Int) (month : Nat) : Nat :=
  (List.range (month - 1)).foldl (fun days earlier => days + daysInMonth year (earlier + 1)) 0

/-- The first year of the calendar. -/
def firstYear : Int := -262143

/-- The last year of the calendar. -/
def lastYear : Int := 262142

/-- Whether a day lies in the years of the calendar. -/
def inCalendar (day : Int) : Bool :=
  decide (daysBeforeYear firstYear ≤ day) && decide (day < daysBeforeYear (lastYear + 1))

/-- The number of a date, if there is such a date. -/
def dayNumber? (year : Int) (month day : Nat) : Option Int :=
  if year < firstYear ∨ lastYear < year then none
  else if month = 0 ∨ 12 < month ∨ day = 0 ∨ daysInMonth year month < day then none
  else some (daysBeforeYear year + daysBeforeMonth year month + day - 1)

/-! ### Reading -/

/-- Whether a character is a blank of any kind. -/
def isBlank (c : Char) : Bool :=
  let code := c.toNat
  (9 ≤ code && code ≤ 13) || (0x2000 ≤ code && code ≤ 0x200A)
    || [0x20, 0x85, 0xA0, 0x1680, 0x2028, 0x2029, 0x202F, 0x205F, 0x3000].contains code

/-- The text from its first character that is no blank. -/
def skipBlanks (text : List Char) : List Char :=
  text.dropWhile isBlank

/-- Up to `width` digits, at least one, and what follows them. -/
def digits? (width : Nat) (text : List Char) : Option (List Char × List Char) :=
  let found := (text.take width).takeWhile Decimal.isDigit
  if found.isEmpty then none else some (found, text.drop found.length)

/-- A number of up to `width` digits after blanks. -/
def number? (width : Nat) (text : List Char) : Option (Nat × List Char) := do
  let (found, rest) ← digits? width (skipBlanks text)
  return (Decimal.ofChars found, rest)

/-- A year: up to four digits, or any number of them after a sign. -/
def year? (text : List Char) : Option (Int × List Char) :=
  match skipBlanks text with
  | '+' :: rest => do
    let (found, rest) ← digits? rest.length rest
    return (Int.ofNat (Decimal.ofChars found), rest)
  | '-' :: rest => do
    let (found, rest) ← digits? rest.length rest
    return (-Int.ofNat (Decimal.ofChars found), rest)
  | rest => do
    let (found, rest) ← digits? 4 rest
    return (Int.ofNat (Decimal.ofChars found), rest)

/-- The text after a sign that may follow blanks. -/
def sign? (sign : Char) (text : List Char) : Option (List Char) :=
  match skipBlanks text with
  | c :: rest => if c = sign then some rest else none
  | [] => none

/-- The nanoseconds of the digits after the point: nine count, missing ones are zeros. -/
def nanoseconds (digits : List Char) : Nat :=
  Decimal.ofChars ((digits ++ List.replicate 9 '0').take 9)

/-- The fraction of a second, if there is one. -/
def fraction? : List Char → Option (Nat × List Char)
  | '.' :: rest => do
    let (found, _) ← digits? 9 rest
    return (nanoseconds found, rest.dropWhile Decimal.isDigit)
  | text => some (0, text)

/-- Hours and minutes after the sign of an offset, in seconds. -/
def hoursAndMinutes? (text : List Char) : Option (Nat × List Char) :=
  match text with
  | h₁ :: h₂ :: rest =>
    if Decimal.isDigit h₁ && Decimal.isDigit h₂ then
      match rest.dropWhile fun c => c == ':' || isBlank c with
      | m₁ :: m₂ :: rest =>
        if Decimal.isDigit m₁ && Decimal.isDigit m₂ && m₁.toNat < 54 then
          some (3600 * Decimal.ofChars [h₁, h₂] + 60 * Decimal.ofChars [m₁, m₂], rest)
        else none
      | _ => none
    else none
  | _ => none

/-- The offset from universal time in seconds. -/
def offset? (text : List Char) : Option (Int × List Char) :=
  if (text.take 3).map Char.toUpper = ['U', 'T', 'C'] then some (0, text.drop 3)
  else
    match text with
    | [] => none
    | c :: rest =>
      if c = 'Z' ∨ c = 'z' then some (0, rest)
      else if c = '+' then do
        let (seconds, rest) ← hoursAndMinutes? rest
        return (Int.ofNat seconds, rest)
      else if c = '-' ∨ c.toNat = 0x2212 then do
        let (seconds, rest) ← hoursAndMinutes? rest
        return (-Int.ofNat seconds, rest)
      else none

/-- The character between date and time. -/
def divider? : List Char → Option (List Char)
  | c :: rest => if c = 'T' ∨ c = 't' ∨ c = ' ' then some rest else none
  | [] => none

/-- A date. -/
def date? (text : List Char) : Option (Int × List Char) := do
  let (year, text) ← year? text
  let text ← sign? '-' text
  let (month, text) ← number? 2 text
  let text ← sign? '-' text
  let (day, text) ← number? 2 text
  let number ← dayNumber? year month day
  return (number, text)

/-- The second of a day and its nanoseconds; the sixtieth second of a minute is a leap second. -/
def clock? (text : List Char) : Option (Int × Int × List Char) := do
  let (hour, text) ← number? 2 text
  let text ← sign? ':' text
  let (minute, text) ← number? 2 text
  let text ← sign? ':' text
  let (second, text) ← number? 2 text
  let (nanosecond, text) ← fraction? text
  if 23 < hour ∨ 59 < minute ∨ 60 < second then none
  else if second = 60 then return (3600 * hour + 60 * minute + 59, 1000000000 + nanosecond, text)
  else return (3600 * hour + 60 * minute + second, nanosecond, text)

/-- **Reads a point in time.** -/
def parse? (text : String) : Option Time := do
  let (day, rest) ← date? text.toList
  let rest ← divider? rest
  let (second, nanosecond, rest) ← clock? rest
  let (offset, rest) ← offset? (skipBlanks rest)
  let universal := second - offset
  let universalDay := day + universal / 86400
  if (skipBlanks rest).isEmpty && offset.natAbs < 86400 && inCalendar universalDay then
    return ⟨universalDay, universal % 86400, nanosecond⟩
  else none

/-! ### Durations -/

/-- The leap second between two times of day, if one of them lies in it and the other one does
not. -/
def leapBetween (start finish : Time) : Int :=
  if start.second < finish.second ∧ 1000000000 ≤ start.nanosecond then 1
  else if finish.second < start.second ∧ 1000000000 ≤ finish.nanosecond then -1
  else 0

/-- The time from one point to another in nanoseconds. -/
def nanosecondsUntil (start finish : Time) : Int :=
  let seconds :=
    (finish.day - start.day) * 86400 + finish.second - start.second + leapBetween start finish
  seconds * 1000000000 + finish.nanosecond - start.nanosecond

/-- **The time from one point to another in whole milliseconds**; the rest is cut off. -/
def millisecondsUntil (start finish : Time) : Int :=
  (nanosecondsUntil start finish).tdiv 1000000

end Time

end StateSpace

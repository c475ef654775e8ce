/-
**Reading JSON texts.**

* `Json.parse` — the value that a text stands for. Blanks may stand around every part, nothing may
  follow the value, and numbers have no leading zeros. Strings hold no control characters; one in
  which the halves of a character do not come in pairs is garbled.
* `Json.document` — the same for a text that is read before it is known what it should be: nothing
  in it may be garbled, its nesting and its numbers are limited, and of several fields of one name
  the last one counts.
-/

import StateSpace.Json.Value
import StateSpace.Text.Decimal

namespace StateSpace.Json

/-- Whether a character may stand between the parts of a text. -/
def isBlank (c : Char) : Bool :=
  c == ' ' || c == '\t' || c == '\n' || c == '\r'

/-- The text from its first part on. -/
def skipBlanks (text : List Char) : List Char :=
  text.dropWhile isBlank

/-- The digits at the start of a text, and what follows them. -/
def digits : List Char → List Nat × List Char
  | [] => ([], [])
  | c :: rest =>
    match Decimal.digit? c with
    | some value =>
      let (values, remaining) := digits rest
      (value :: values, remaining)
    | none => ([], c :: rest)

/-- One digit or more. -/
def someDigits (text : List Char) : Option (List Nat × List Char) :=
  match digits text with
  | ([], _) => none
  | found => some found

/-- The digits before the point: a zero alone, or digits that start with another one. -/
def wholePart (text : List Char) : Option (Nat × List Char) := do
  let (values, rest) ← someDigits text
  match values with
  | 0 :: _ :: _ => none
  | _ => return (Decimal.ofDigits values, rest)

/-- The point and the digits after it, if there is one. -/
def fractionPart : List Char → Option (Option (List Nat) × List Char)
  | '.' :: rest => do
    let (values, remaining) ← someDigits rest
    return (some values, remaining)
  | text => some (none, text)

/-- The sign of an exponent. -/
def exponentSign : List Char → Bool × List Char
  | '+' :: rest => (false, rest)
  | '-' :: rest => (true, rest)
  | text => (false, text)

/-- The exponent, if there is one. -/
def exponentPart (text : List Char) : Option (Option (Bool × Nat) × List Char) :=
  match text with
  | c :: rest =>
    if c = 'e' ∨ c = 'E' then do
      let (negative, rest) := exponentSign rest
      let (values, remaining) ← someDigits rest
      return (some (negative, Decimal.ofDigits values), remaining)
    else some (none, text)
  | [] => some (none, [])

/-- A number without its sign. -/
def number (negative : Bool) (text : List Char) : Option (Json × List Char) := do
  let (whole, rest) ← wholePart text
  let (fraction, rest) ← fractionPart rest
  let (exponent, rest) ← exponentPart rest
  return (.num ⟨negative, whole, fraction, exponent⟩, rest)

/-- A part of a string: a character, or half of one, given by its number. -/
inductive Piece where
  | char (c : Char)
  | unit (code : Nat)

/-- The character that an escape of one letter stands for. -/
def simpleEscape? (c : Char) : Option Char :=
  if c = '"' ∨ c = '\\' ∨ c = '/' then some c
  else if c = 'b' then some (Char.ofNat 8)
  else if c = 'f' then some (Char.ofNat 12)
  else if c = 'n' then some '\n'
  else if c = 'r' then some '\r'
  else if c = 't' then some '\t'
  else none

/-- The number of four hexadecimal digits. -/
def unit? (a b c d : Char) : Option Nat := do
  let a ← Hex.value? a
  let b ← Hex.value? b
  let c ← Hex.value? c
  let d ← Hex.value? d
  return ((a * 16 + b) * 16 + c) * 16 + d

/-- The parts of a string up to its closing quote, and what follows it. -/
def pieces : List Char → Option (List Piece × List Char)
  | [] => none
  | '"' :: rest => some ([], rest)
  | '\\' :: 'u' :: a :: b :: c :: d :: rest => do
    let code ← unit? a b c d
    let (found, remaining) ← pieces rest
    return (.unit code :: found, remaining)
  | '\\' :: letter :: rest => do
    let c ← simpleEscape? letter
    let (found, remaining) ← pieces rest
    return (.char c :: found, remaining)
  | c :: rest =>
    if c.toNat < 32 || c = '\\' then none
    else do
      let (found, remaining) ← pieces rest
      return (.char c :: found, remaining)

/-- The characters of the parts of a string; halves have to come in pairs, the high one first. -/
def join : List Piece → Option (List Char)
  | [] => some []
  | .char c :: rest => (join rest).map (c :: ·)
  | .unit high :: .unit low :: rest =>
    if 0xD800 ≤ high ∧ high < 0xDC00 then
      if 0xDC00 ≤ low ∧ low < 0xE000 then
        (join rest).map (Char.ofNat (0x10000 + (high - 0xD800) * 0x400 + (low - 0xDC00)) :: ·)
      else none
    else if 0xDC00 ≤ high ∧ high < 0xE000 then none
    else (join (.unit low :: rest)).map (Char.ofNat high :: ·)
  | .unit code :: rest =>
    if 0xD800 ≤ code ∧ code < 0xE000 then none else (join rest).map (Char.ofNat code :: ·)

/-- A string after its opening quote, without a text if it is garbled. -/
def string (text : List Char) : Option (Option String × List Char) := do
  let (found, rest) ← pieces text
  return ((join found).map String.ofList, rest)

/-- The value of a string. -/
def ofText : Option String → Json
  | some text => .str text
  | none => .garbled

/-- The value of an object. -/
def ofFields (fields : List (Option String × Json)) : Json :=
  match fields.mapM fun field => field.1.map fun name => (name, field.2) with
  | some named => .obj named
  | none => .garbled

/-- The text after a word, if it starts with it. -/
def word? : List Char → List Char → Option (List Char)
  | [], text => some text
  | _ :: _, [] => none
  | expected :: more, c :: rest => if expected = c then word? more rest else none

mutual

/-- A value, and what follows it. Of two nested calls one takes a character away, so that twice the
length of the text is fuel enough. -/
def value : Nat → List Char → Option (Json × List Char)
  | 0, _ => none
  | fuel + 1, text =>
    match skipBlanks text with
    | [] => none
    | c :: rest =>
      if c = '"' then (string rest).map fun found => (ofText found.1, found.2)
      else if c = '-' then number true rest
      else if Decimal.isDigit c then number false (c :: rest)
      else if c = 'n' then (word? ['u', 'l', 'l'] rest).map fun rest => (.null, rest)
      else if c = 't' then (word? ['r', 'u', 'e'] rest).map fun rest => (.bool true, rest)
      else if c = 'f' then (word? ['a', 'l', 's', 'e'] rest).map fun rest => (.bool false, rest)
      else if c = '[' then
        match skipBlanks rest with
        | ']' :: rest => some (.arr [], rest)
        | rest => (elements fuel rest).map fun found => (.arr found.1, found.2)
      else if c.toNat = 123 then
        match skipBlanks rest with
        | '\x7d' :: rest => some (.obj [], rest)
        | rest => (fields fuel rest).map fun found => (ofFields found.1, found.2)
      else none

/-- One element or more, and the text after the closing bracket. -/
def elements : Nat → List Char → Option (List Json × List Char)
  | 0, _ => none
  | fuel + 1, text => do
    let (element, rest) ← value fuel text
    match skipBlanks rest with
    | ',' :: rest =>
      let (more, rest) ← elements fuel rest
      return (element :: more, rest)
    | ']' :: rest => return ([element], rest)
    | _ => none

/-- One field or more, and the text after the closing brace. -/
def fields : Nat → List Char → Option (List (Option String × Json) × List Char)
  | 0, _ => none
  | fuel + 1, text =>
    match skipBlanks text with
    | '"' :: rest => do
      let (name, rest) ← string rest
      match skipBlanks rest with
      | ':' :: rest =>
        let (content, rest) ← value fuel rest
        match skipBlanks rest with
        | ',' :: rest =>
          let (more, rest) ← fields fuel rest
          return ((name, content) :: more, rest)
        | '\x7d' :: rest => return ([(name, content)], rest)
        | _ => none
      | _ => none
    | _ => none

end

/-- **The value that a text stands for.** -/
def parse (text : String) : Option Json := do
  let characters := text.toList
  let (found, rest) ← value (2 * characters.length + 1) characters
  if (skipBlanks rest).isEmpty then some found else none

/-- **The value of a text of unknown content.** -/
def document (text : String) : Option Json := do
  let found ← parse text
  if found.depth < 128 && found.isReadable then some found.lastFields else none

end StateSpace.Json

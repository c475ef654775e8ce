/-
**JSON values and their text.**

* `Json` — a value. The fields of an object keep their order, and a name may occur twice. A string
  in which half of a character stands alone is no text: it is garbled, and so is an object with
  such a name. A garbled value may stand where nobody reads it.
* `Json.render` — the text of a value, without blanks. Quotes, backslashes and control characters
  are escaped; all other characters stand for themselves.
* `Json.lastFields` — the value in which of several fields of one name only the last one is left.
-/

import StateSpace.Json.Number
import StateSpace.Text.Hex

namespace StateSpace

/-- **A JSON value.** -/
inductive Json where
  | null
  | bool (value : Bool)
  | num (value : Number)
  | str (value : String)
  | arr (elements : List Json)
  | obj (fields : List (String × Json))
  /-- A value that may be skipped but not read. -/
  | garbled

namespace Json

/-- A counter. -/
def nat (number : Nat) : Json :=
  .num (.ofNat number)

/-- An integer. -/
def int (number : Int) : Json :=
  .num (.ofInt number)

/-- A list of counters. -/
def nats (numbers : List Nat) : Json :=
  .arr (numbers.map nat)

/-- A list of texts. -/
def texts (values : List String) : Json :=
  .arr (values.map str)

/-- A value that may be absent. -/
def orNull {α : Type} (encode : α → Json) : Option α → Json
  | some value => encode value
  | none => .null

/-- A character inside quotes. -/
def escape (c : Char) : List Char :=
  if c = '"' then ['\\', '"']
  else if c = '\\' then ['\\', '\\']
  else if c.toNat = 8 then ['\\', 'b']
  else if c.toNat = 9 then ['\\', 't']
  else if c.toNat = 10 then ['\\', 'n']
  else if c.toNat = 12 then ['\\', 'f']
  else if c.toNat = 13 then ['\\', 'r']
  else if c.toNat < 32 then '\\' :: 'u' :: Hex.digits 4 c.toNat
  else [c]

/-- A text in quotes. -/
def quote (text : String) : String :=
  "\"" ++ String.ofList (text.toList.flatMap escape) ++ "\""

mutual

/-- **The text of a value**; what is garbled is written as null. -/
def render : Json → String
  | .null => "null"
  | .bool true => "true"
  | .bool false => "false"
  | .num number => number.render
  | .str text => quote text
  | .arr elements => "[" ++ ",".intercalate (renderElements elements) ++ "]"
  | .obj fields => "\x7b" ++ ",".intercalate (renderFields fields) ++ "\x7d"
  | .garbled => "null"

/-- The texts of some values. -/
def renderElements : List Json → List String
  | [] => []
  | element :: rest => element.render :: renderElements rest

/-- The texts of some fields. -/
def renderFields : List (String × Json) → List String
  | [] => []
  | (name, value) :: rest => (quote name ++ ":" ++ value.render) :: renderFields rest

end

mutual

/-- The value in which of several fields of one name only the last one is left. -/
def lastFields : Json → Json
  | .arr elements => .arr (lastElements elements)
  | .obj fields => .obj (lastOfEach fields)
  | value => value

/-- The same for each of some values. -/
def lastElements : List Json → List Json
  | [] => []
  | element :: rest => element.lastFields :: lastElements rest

/-- Some fields, each name with its last value. -/
def lastOfEach : List (String × Json) → List (String × Json)
  | [] => []
  | (name, value) :: rest =>
    if rest.any fun field => field.1 == name then lastOfEach rest
    else (name, value.lastFields) :: lastOfEach rest

end

mutual

/-- How deeply arrays and objects are nested. -/
def depth : Json → Nat
  | .arr elements => depthOfElements elements + 1
  | .obj fields => depthOfFields fields + 1
  | _ => 0

/-- The greatest depth of some values. -/
def depthOfElements : List Json → Nat
  | [] => 0
  | element :: rest => Nat.max element.depth (depthOfElements rest)

/-- The greatest depth of the values of some fields. -/
def depthOfFields : List (String × Json) → Nat
  | [] => 0
  | (_, value) :: rest => Nat.max value.depth (depthOfFields rest)

end

mutual

/-- Whether nothing is garbled and no number lies beyond all doubles. -/
def isReadable : Json → Bool
  | .num number => number.toFloat?.isSome
  | .arr elements => elementsReadable elements
  | .obj fields => fieldsReadable fields
  | .garbled => false
  | _ => true

/-- The same for each of some values. -/
def elementsReadable : List Json → Bool
  | [] => true
  | element :: rest => element.isReadable && elementsReadable rest

/-- The same for the values of some fields. -/
def fieldsReadable : List (String × Json) → Bool
  | [] => true
  | (_, value) :: rest => value.isReadable && fieldsReadable rest

end

end Json

end StateSpace

/-
**Parts of JSON values.**

* `Json.nat?`, `Json.index?`, `Json.byte?` and the like — scalars; counters have to fit their
  width.
* `Json.list?`, `Json.pair?`, `Json.nullable?` — values built from others.
* `Json.recordOr?` — the contents of the fields of a record, in the order of its declaration, each
  field given with what stands for it if it is left out. A record is written as an object, where
  unknown fields are ignored and no field may come twice, or as an array of its fields, where only
  fields at the end may be left out, and none that null stands for.
* `Json.record?` — the same where null stands for every field.
* `Json.variant?` — the name and the content of a variant, which without content may be written as
  its name alone.
-/

import StateSpace.Json.Value

namespace StateSpace.Json

/-- A counter below a bound. -/
def nat? (bound : Nat) : Json → Option Nat
  | .num number => number.toNat? bound
  | _ => none

/-- A counter of 64 bits. -/
def index? (json : Json) : Option Nat :=
  json.nat? UInt64.size

/-- A word of 64 bits. -/
def word64? (json : Json) : Option UInt64 :=
  (json.nat? UInt64.size).map UInt64.ofNat

/-- A byte. -/
def byte? (json : Json) : Option UInt8 :=
  (json.nat? UInt8.size).map UInt8.ofNat

/-- A word of 32 bits. -/
def word32? (json : Json) : Option UInt32 :=
  (json.nat? UInt32.size).map UInt32.ofNat

/-- A truth value. -/
def bool? : Json → Option Bool
  | .bool value => some value
  | _ => none

/-- A text. -/
def text? : Json → Option String
  | .str text => some text
  | _ => none

/-- A double. -/
def float? : Json → Option Float
  | .num number => number.toFloat?
  | _ => none

/-- A list of values of one kind. -/
def list? {α : Type} (decode : Json → Option α) : Json → Option (List α)
  | .arr elements => elements.mapM decode
  | _ => none

/-- A list of 64-bit counters. -/
def indices? : Json → Option (List Nat) :=
  list? index?

/-- Two values of one kind. -/
def pair? {α : Type} (decode : Json → Option α) : Json → Option (α × α)
  | .arr [first, second] => do
    let first ← decode first
    let second ← decode second
    return (first, second)
  | _ => none

/-- A value that may be null. -/
def nullable? {α : Type} (decode : Json → Option α) : Json → Option (Option α)
  | .null => some none
  | json => (decode json).map some

/-- Bytes, as pairs of hexadecimal digits. -/
def bytes? (json : Json) : Option (List UInt8) :=
  json.text?.bind Hex.toBytes?

/-- The content of the only field of a name; what stands for it if there is no such field. -/
def single (fields : List (String × Json)) (name : String) (standIn : Json) : Option Json :=
  match fields.filter fun field => field.1 == name with
  | [] => some standIn
  | [(_, content)] => some content
  | _ => none

/-- Whether a value is null. -/
def isNull : Json → Bool
  | .null => true
  | _ => false

/-- **The contents of the fields of a record**, in the order of its declaration, some of which may
be left out. -/
def recordOr? (declared : List (String × Json)) : Json → Option (List Json)
  | .arr elements =>
    let standIns := (declared.drop elements.length).map Prod.snd
    if declared.length < elements.length || standIns.any isNull then none
    else some (elements ++ standIns)
  | .obj fields => declared.mapM fun field => single fields field.1 field.2
  | _ => none

/-- **The contents of the fields of a record**, null for those that are left out. -/
def record? (names : List String) : Json → Option (List Json) :=
  recordOr? (names.map fun name => (name, .null))

/-- **The name of a variant and its content.** -/
def variant? : Json → Option (String × Json)
  | .str name => some (name, .null)
  | .obj [(name, content)] => some (name, content)
  | _ => none

/-- The name of a variant without content. -/
def plainVariant? (json : Json) : Option String :=
  match json.variant? with
  | some (name, .null) => some name
  | _ => none

/-- The content of a field of an object, null if it is missing. -/
def field (json : Json) (name : String) : Json :=
  match json with
  | .obj fields => ((fields.find? fun field => field.1 == name).map Prod.snd).getD .null
  | _ => .null

end StateSpace.Json

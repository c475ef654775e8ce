/-
**Searches as JSON.**

* `Goal.ofJson?` — reads what a search looks for.
* `Listed.ofJson?` — reads a graph given by its edges.
-/

import StateSpace.Graph.Listed
import StateSpace.Json.Decode
import StateSpace.Search.Goal

namespace StateSpace

namespace Goal

/-- Reads a place and the value to find there. -/
def place? : Json → Option (Nat × UInt8)
  | .arr [index, value] => do
    let index ← index.index?
    let value ← value.byte?
    return (index, value)
  | _ => none

/-- Reads what a search looks for. -/
def ofJson? (json : Json) : Option Goal := do
  match ← json.record? ["image", "byte", "count"] with
  | [bytes, byte, count] =>
    let bytes ← bytes.nullable? Json.bytes?
    let byte ← byte.nullable? place?
    let count ← count.nullable? Json.index?
    return ⟨bytes, byte, count⟩
  | _ => none

end Goal

namespace Listed

/-- Reads a state and its successors. -/
def edge? : Json → Option (List UInt8 × List (List UInt8))
  | .arr [source, targets] => do
    let source ← source.bytes?
    let targets ← targets.list? Json.bytes?
    return (source, targets)
  | _ => none

/-- Reads a graph given by its edges. -/
def ofJson? (json : Json) : Option Listed := do
  match ← json.record? ["initial", "edges", "fail"] with
  | [initial, edges, failing] =>
    let initial ← initial.nullable? Json.bytes?
    let edges ← edges.list? edge?
    let failing ← failing.list? Json.bytes?
    return ⟨initial, edges, failing⟩
  | _ => none

end Listed

end StateSpace

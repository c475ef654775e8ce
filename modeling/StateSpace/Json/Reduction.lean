/-
**Options, policies, limits, matrices and statistics as JSON.**

* `ofJson?` and `toJson` — readers and writers.
* `Options.ofPartialJson?` — reads options of which some may be null or left out.
* `PackedMatrix` — a bit matrix as it is written, whose figures need not fit together.
-/

import StateSpace.BitMatrix.Basic
import StateSpace.Expansion
import StateSpace.Json.Decode
import StateSpace.Reduction.Reducer
import StateSpace.Search.Explore

namespace StateSpace

namespace Method

/-- The name of a method. -/
def name : Method → String
  | .base => "Base"
  | .stubbornSet => "StubbornSet"

/-- Reads a method. -/
def ofJson? (json : Json) : Option Method := do
  match ← json.plainVariant? with
  | "Base" => return .base
  | "StubbornSet" => return .stubbornSet
  | _ => none

end Method

namespace Options

/-- Reads options. -/
def ofJson? (json : Json) : Option Options := do
  match ← json.record? ["method", "spin_fashion"] with
  | [method, processLocal] =>
    let method ← Method.ofJson? method
    let processLocal ← processLocal.bool?
    return ⟨method, processLocal⟩
  | _ => none

/-- Reads options of which some may be null or left out, which are then the default ones. -/
def ofPartialJson? (json : Json) : Option Options := do
  let default : Options := {}
  match ← json.record? ["method", "spin_fashion"] with
  | [method, processLocal] =>
    let method ← method.nullable? Method.ofJson?
    let processLocal ← processLocal.nullable? Json.bool?
    return ⟨method.getD default.method, processLocal.getD default.processLocal⟩
  | _ => none

/-- Writes options. -/
def toJson (o : Options) : Json :=
  .obj [("method", .str o.method.name), ("spin_fashion", .bool o.processLocal)]

end Options

namespace Policy

/-- The name of a policy. -/
def name : Policy → String
  | .strict => "Strict"
  | .lenient => "Lenient"

/-- Reads a policy. -/
def ofJson? (json : Json) : Option Policy := do
  match ← json.plainVariant? with
  | "Strict" => return .strict
  | "Lenient" => return .lenient
  | _ => none

/-- Writes a policy. -/
def toJson (p : Policy) : Json :=
  .str p.name

end Policy

namespace Limits

/-- Reads limits. -/
def ofJson? (json : Json) : Option Limits := do
  match ← json.record? ["max_states"] with
  | [maxStates] => return ⟨← maxStates.nullable? Json.index?⟩
  | _ => none

/-- Writes limits. -/
def toJson (l : Limits) : Json :=
  .obj [("max_states", .orNull .nat l.maxStates)]

end Limits

/-- **A bit matrix as it is written.** -/
structure PackedMatrix where
  rows : Nat
  cols : Nat
  stride : Nat
  words : List UInt64

namespace PackedMatrix

/-- How a matrix is written. -/
def ofMatrix (m : BitMatrix) : PackedMatrix :=
  ⟨m.rows, m.cols, m.stride, m.words.toList⟩

/-- Reads a packed matrix. -/
def ofJson? (json : Json) : Option PackedMatrix := do
  match ← json.record? ["rows", "cols", "stride", "words"] with
  | [rows, cols, stride, words] =>
    let rows ← rows.index?
    let cols ← cols.index?
    let stride ← stride.index?
    let words ← words.list? Json.word64?
    return ⟨rows, cols, stride, words⟩
  | _ => none

/-- Writes a packed matrix. -/
def toJson (m : PackedMatrix) : Json :=
  .obj [("rows", .nat m.rows), ("cols", .nat m.cols), ("stride", .nat m.stride),
    ("words", .nats (m.words.map UInt64.toNat))]

end PackedMatrix

namespace Stats

/-- Reads statistics. -/
def ofJson? (json : Json) : Option Stats := do
  let names :=
    ["states", "reduced", "enabled", "min_reduced", "max_reduced", "min_enabled", "max_enabled",
      "min_ratio", "max_ratio"]
  match ← json.record? names with
  | [states, reduced, enabled, minReduced, maxReduced, minEnabled, maxEnabled, minRatio,
      maxRatio] =>
    let states ← states.index?
    let reduced ← reduced.index?
    let enabled ← enabled.index?
    let minReduced ← minReduced.index?
    let maxReduced ← maxReduced.index?
    let minEnabled ← minEnabled.index?
    let maxEnabled ← maxEnabled.index?
    let minRatio ← minRatio.float?
    let maxRatio ← maxRatio.float?
    return {
      states := states
      reduced := reduced
      enabled := enabled
      minReduced := minReduced
      maxReduced := maxReduced
      minEnabled := minEnabled
      maxEnabled := maxEnabled
      minRatio := minRatio
      maxRatio := maxRatio }
  | _ => none

end Stats

end StateSpace

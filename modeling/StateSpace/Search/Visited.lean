/-
**The table of visited states.**

* `Visited` — the images met so far, found by their hash.
* `Visited.contains` — whether some entry is one with an image in the sense of `Image.sameEntry`.
-/

import Std.Data.TreeMap
import StateSpace.Image.Basic

namespace StateSpace

/-- **The images met so far**, by their hash. -/
structure Visited where
  buckets : Std.TreeMap UInt64 (List Image)

namespace Visited

/-- The table without an entry. -/
def empty : Visited :=
  ⟨∅⟩

/-- The entries with a certain hash. -/
def bucket (table : Visited) (hash : UInt64) : List Image :=
  table.buckets.getD hash []

/-- Whether an image is one of the entries. -/
def contains (table : Visited) (image : Image) : Bool :=
  (table.bucket image.hash).any image.sameEntry

/-- The table with one more entry. -/
def insert (table : Visited) (image : Image) : Visited :=
  ⟨table.buckets.insert image.hash (image :: table.bucket image.hash)⟩

end Visited

end StateSpace

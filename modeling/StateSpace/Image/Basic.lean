/-
**State images.**

* `Image` — the bytes of one state together with their hash, which is computed once.
* `Image.compare` — byte order over the common length, so that an image and an extension of it
  compare equal.
* `Image.order` — the same with the length as a tie-break: the lexicographic order.
* `Image.sameEntry` — the equality of the visited table: equal hashes and equal bytes over the
  common length. It is coarser than equality: `01` and `0100` share their hash, so they are one
  entry.
-/

import StateSpace.Image.Hash
import StateSpace.Text.Hex

namespace StateSpace

/-- **The bytes of a state and their hash.** -/
structure Image where
  bytes : List UInt8
  hash : UInt64
  hash_eq : hash = hashBytes bytes
deriving DecidableEq

namespace Image

/-- The image of a byte string. -/
def ofBytes (bytes : List UInt8) : Image :=
  ⟨bytes, hashBytes bytes, rfl⟩

/-- The number of bytes. -/
def size (image : Image) : Nat :=
  image.bytes.length

/-- Byte order over the common length of two byte strings. -/
def compareBytes : List UInt8 → List UInt8 → Ordering
  | first :: firsts, second :: seconds =>
    if first < second then .lt
    else if second < first then .gt
    else compareBytes firsts seconds
  | _, _ => .eq

/-- Byte order over the common length of two images. -/
def compare (first second : Image) : Ordering :=
  compareBytes first.bytes second.bytes

/-- The order of two numbers. -/
def compareSize (first second : Nat) : Ordering :=
  if first < second then .lt else if second < first then .gt else .eq

/-- Byte order, and of an image and an extension of it the shorter one first. -/
def order (first second : Image) : Ordering :=
  (first.compare second).then (compareSize first.size second.size)

/-- Whether two images are equal: their hashes are, and their bytes. -/
def same (first second : Image) : Bool :=
  first.hash == second.hash && first.bytes == second.bytes

/-- Whether two images are one entry of the visited table. -/
def sameEntry (first second : Image) : Bool :=
  first.hash == second.hash && (first.compare second).isEq

/-- The bytes in brackets, separated by blanks. -/
def dump (image : Image) : String :=
  "[" ++ " ".intercalate (image.bytes.map Hex.ofByte) ++ "]"

/-- Hash and length in one line. -/
def summary (image : Image) : String :=
  let hash := Hex.ofWord image.hash
  let size := image.size
  s!"StateImage({hash}, {size}B)"

end Image

end StateSpace

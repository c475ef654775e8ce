/-
**Named images and the buffers they share.**

* `Gallery` — names, each holding a buffer. Storing an image makes a new buffer; sharing lets a
  second name hold the buffer of a first one. A buffer lives as long as a name holds it.
* `Gallery.holders` — how many names hold a buffer.
* `Gallery.sorted`, `Gallery.distinct` — the names in the order of their images, and the number
  of different images.
-/

import StateSpace.Image.Basic

namespace StateSpace

/-- What a name holds: a buffer, known by its number, and the image in it. -/
structure Gallery.Slot where
  name : String
  buffer : Nat
  image : Image

/-- **Names and what they hold.** Buffers are numbered in the order of their making. -/
structure Gallery where
  slots : List Gallery.Slot := []
  made : Nat := 0

namespace Gallery

/-- What a name holds. -/
def find? (gallery : Gallery) (name : String) : Option Slot :=
  gallery.slots.find? fun slot => slot.name == name

/-- The gallery without a name. -/
def drop (gallery : Gallery) (name : String) : Gallery :=
  { gallery with slots := gallery.slots.filter fun slot => slot.name != name }

/-- Lets a name hold a new buffer with an image. -/
def store (gallery : Gallery) (name : String) (image : Image) : Gallery where
  slots := ⟨name, gallery.made, image⟩ :: (gallery.drop name).slots
  made := gallery.made + 1

/-- Lets a name hold the buffer that another one holds. -/
def share (gallery : Gallery) (name : String) (held : Slot) : Gallery :=
  { gallery with slots := { held with name := name } :: (gallery.drop name).slots }

/-- The number of names that hold a buffer. -/
def holders (gallery : Gallery) (buffer : Nat) : Nat :=
  gallery.slots.countP fun slot => slot.buffer == buffer

/-- Whether a name stands before another one or is the same: by code points, and a name before
its extensions. -/
def precedes : List Char → List Char → Bool
  | [], _ => true
  | _ :: _, [] => false
  | first :: firsts, second :: seconds =>
    if first.toNat < second.toNat then true
    else if second.toNat < first.toNat then false
    else precedes firsts seconds

/-- What the names hold, in the order of the names. -/
def byName (gallery : Gallery) : List Slot :=
  gallery.slots.mergeSort fun first second => precedes first.name.toList second.name.toList

/-- The names in the order of their images; equal images keep the order of the names. -/
def sorted (gallery : Gallery) : List String :=
  (gallery.byName.mergeSort fun first second => (first.image.order second.image).isLE).map Slot.name

/-- Some images without repetitions. -/
def withoutRepetitions : List Image → List Image
  | [] => []
  | image :: rest =>
    if rest.any image.same then withoutRepetitions rest else image :: withoutRepetitions rest

/-- The number of different images. -/
def distinct (gallery : Gallery) : Nat :=
  (withoutRepetitions (gallery.slots.map Slot.image)).length

end Gallery

end StateSpace

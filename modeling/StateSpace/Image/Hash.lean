/-
**The hash of a byte string.**

* `mix` — an invertible scrambling of a 64-bit word by shifts, sums and exclusive ors.
* `littleEndian`, `tailKey` — the word of eight bytes, and the word of the bytes left over.
* `hashBytes` — the mixed words of a byte string and its tail, combined by exclusive or. The
  tail is not mixed: its bytes stand at the most significant end and zeros fill the rest, so
  that the tail `[a, b, c]` contributes `0xaabbcc0000000000`.
-/

namespace StateSpace

/-- Scrambles a word; different words stay different. -/
def mix (key : UInt64) : UInt64 :=
  let key := key + ~~~(key <<< 15)
  let key := key ^^^ (key >>> 10)
  let key := key + (key <<< 3)
  let key := key ^^^ (key >>> 6)
  let key := key + ~~~(key <<< 11)
  key ^^^ (key >>> 16)

/-- The word whose least significant byte comes first. -/
def littleEndian : List UInt8 → UInt64
  | [] => 0
  | byte :: rest => byte.toUInt64 + 256 * littleEndian rest

/-- The word of fewer than eight bytes: the first one is the most significant, and the whole is
moved up by one byte for each one that is missing. -/
def tailKey (tail : List UInt8) : UInt64 :=
  Nat.repeat (fun key => key * 256) (8 - tail.length)
    (tail.foldl (fun key byte => key * 256 + byte.toUInt64) 0)

/-- **The hash of a byte string**: the exclusive or of its mixed full words and of its tail. -/
def hashBytes : List UInt8 → UInt64
  | b₀ :: b₁ :: b₂ :: b₃ :: b₄ :: b₅ :: b₆ :: b₇ :: rest =>
    mix (littleEndian [b₀, b₁, b₂, b₃, b₄, b₅, b₆, b₇]) ^^^ hashBytes rest
  | tail => tailKey tail

end StateSpace

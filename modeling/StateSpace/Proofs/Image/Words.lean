/-
**The hash word by word.**

A full word contributes its own hash wherever it stands, so the hash of a byte string is a sum in
the group of words under exclusive or:

* `hashBytes_append` — behind full words the hash of the rest is added to theirs.
* `hashBytes_joined` — full words are mixed, in any order, and the rest is hashed by itself.
* `hashBytes_of_short_toNat` — a rest that is not a full word is read as a number with the most
  significant byte first, zeros filling it up.
* `hashBytes_homomorphic` — hence what the hash cannot see: the order of the full words, a word that
  occurs a second time, and zeros at the end of the last word.
-/

import Mathlib.Data.LawfulXor.Basic
import Mathlib.Data.List.Perm.Basic
import StateSpace.Proofs.Image.Hash

namespace StateSpace

/-- **Full words in front.** Their hash and that of the rest are combined by exclusive or. -/
theorem hashBytes_append (words rest : List UInt8) (aligned : words.length % 8 = 0) :
    hashBytes (words ++ rest) = hashBytes words ^^^ hashBytes rest := by
  fun_induction hashBytes words with
  | case1 b₀ b₁ b₂ b₃ b₄ b₅ b₆ b₇ others ih =>
    have alignedOthers : others.length % 8 = 0 := by
      simp only [List.length_cons] at aligned
      omega
    rw [UInt64.xor_assoc, ← ih alignedOthers]
    rfl
  | case2 tail notFull =>
    have small : tail.length < 8 := length_lt_of_not_full notFull
    have none : tail = [] := by
      apply List.eq_nil_of_length_eq_zero
      omega
    rw [none, List.nil_append, tailKey_nil, UInt64.zero_xor]

/-- A single full word is mixed. -/
theorem hashBytes_word {word : List UInt8} (full : word.length = 8) :
    hashBytes word = mix (littleEndian word) := by
  match word, full with
  | [b₀, b₁, b₂, b₃, b₄, b₅, b₆, b₇], _ =>
    show mix (littleEndian [b₀, b₁, b₂, b₃, b₄, b₅, b₆, b₇]) ^^^ tailKey [] = _
    rw [tailKey_nil, UInt64.xor_zero]

/-! ### Lists of words -/

/-- The bytes of some full words. -/
def joined (words : List (Vector UInt8 8)) : List UInt8 :=
  words.flatMap Vector.toList

theorem joined_cons (word : Vector UInt8 8) (words : List (Vector UInt8 8)) :
    joined (word :: words) = word.toList ++ joined words :=
  List.flatMap_cons

/-- A full word in front of bytes with a known hash. -/
def absorb (word : Vector UInt8 8) (hash : UInt64) : UInt64 :=
  mix (littleEndian word.toList) ^^^ hash

instance : LeftCommutative absorb where
  left_comm first second hash := by
    unfold absorb
    rw [← UInt64.xor_assoc, UInt64.xor_comm (mix _), UInt64.xor_assoc]

theorem absorb_absorb (word : Vector UInt8 8) (hash : UInt64) :
    absorb word (absorb word hash) = hash :=
  xor_cancel_left _ _

/-- **Full words and the rest**: the words are mixed one by one. -/
theorem hashBytes_joined (words : List (Vector UInt8 8)) (rest : List UInt8) :
    hashBytes (joined words ++ rest) = words.foldr absorb (hashBytes rest) := by
  induction words with
  | nil => rfl
  | cons word words ih =>
    have full : word.toList.length = 8 := Vector.length_toList
    rw [joined_cons, List.append_assoc, hashBytes_append _ _ (by rw [full]), ih,
      hashBytes_word full, List.foldr_cons, absorb]

/-- The order of the full words does not matter. -/
theorem hashBytes_joined_perm {words words' : List (Vector UInt8 8)} (same : words.Perm words')
    (rest : List UInt8) :
    hashBytes (joined words ++ rest) = hashBytes (joined words' ++ rest) := by
  rw [hashBytes_joined, hashBytes_joined, same.foldr_eq]

/-- A word that occurs twice does not count. -/
theorem hashBytes_joined_twice (word : Vector UInt8 8) (words : List (Vector UInt8 8))
    (rest : List UInt8) :
    hashBytes (joined (word :: word :: words) ++ rest) = hashBytes (joined words ++ rest) := by
  rw [hashBytes_joined, hashBytes_joined, List.foldr_cons, List.foldr_cons, absorb_absorb]

/-! ### The rest -/

/-- **Fewer than eight bytes** are the digits of a number, zeros filling up the word. -/
theorem hashBytes_of_short_toNat {bytes : List UInt8} (short : bytes.length ≤ 7) :
    (hashBytes bytes).toNat = bigEndian (bytes ++ List.replicate (8 - bytes.length) 0) := by
  have zeros : bigEndian (List.replicate (8 - bytes.length) 0) = 0 :=
    bigEndian_eq_zero_iff.mpr fun byte member => List.eq_of_mem_replicate member
  rw [hashBytes_of_short (by omega), tailKey_toNat bytes (by omega), bigEndian_append, zeros,
    List.length_replicate, Nat.add_zero]

/-- **The hash as a homomorphism.** The hash of full words in front is added by exclusive or, and
fewer than eight bytes are the number they spell when zeros fill them up to a word. So the full
words of a byte string may be permuted, two equal ones left out, and zeros added inside the last
word. -/
theorem hashBytes_homomorphic :
    (∀ words rest : List UInt8, words.length % 8 = 0 →
      hashBytes (words ++ rest) = hashBytes words ^^^ hashBytes rest) ∧
    (∀ bytes : List UInt8, bytes.length ≤ 7 →
      (hashBytes bytes).toNat = bigEndian (bytes ++ List.replicate (8 - bytes.length) 0)) ∧
    (∀ (words words' : List (Vector UInt8 8)) (rest : List UInt8), words.Perm words' →
      hashBytes (joined words ++ rest) = hashBytes (joined words' ++ rest)) ∧
    (∀ (before between after : List (Vector UInt8 8)) (word : Vector UInt8 8) (rest : List UInt8),
      hashBytes (joined (before ++ word :: between ++ word :: after) ++ rest)
        = hashBytes (joined (before ++ between ++ after) ++ rest)) ∧
    (∀ (bytes : List UInt8) (count : Nat), bytes.length % 8 + count < 8 →
      hashBytes (bytes ++ List.replicate count 0) = hashBytes bytes) := by
  refine ⟨hashBytes_append, fun bytes short => hashBytes_of_short_toNat short,
    fun words words' rest same => hashBytes_joined_perm same rest,
    fun before between after word rest => ?_, fun bytes count room => ?_⟩
  · -- brought together in front, the two words cancel
    have gathered : (before ++ word :: between ++ word :: after).Perm
        (word :: word :: (before ++ between ++ after)) := by
      refine List.perm_middle.trans (List.Perm.cons word ?_)
      simpa only [List.append_assoc, List.cons_append] using List.perm_middle
    rw [hashBytes_joined_perm gathered, hashBytes_joined_twice]
  · have zeros : ∀ byte ∈ List.replicate count (0 : UInt8), byte = 0 :=
      fun byte member => List.eq_of_mem_replicate member
    refine (hashBytes_append_eq_iff bytes _ ?_).mpr zeros
    rwa [List.length_replicate]

/-- A word and a byte, a tail of three bytes, two words exchanged, and two zeros added. -/
theorem hashBytes_homomorphic_small :
    (([1, 2, 3, 4, 5, 6, 7, 8] : List UInt8).length % 8 = 0 ∧
      hashBytes ([1, 2, 3, 4, 5, 6, 7, 8] ++ [0xff])
        = hashBytes [1, 2, 3, 4, 5, 6, 7, 8] ^^^ hashBytes [0xff]) ∧
    (([0xaa, 0xbb, 0xcc] : List UInt8).length ≤ 7 ∧
      (hashBytes [0xaa, 0xbb, 0xcc]).toNat
        = bigEndian ([0xaa, 0xbb, 0xcc] ++ List.replicate 5 0)) ∧
    ([#v[1, 2, 3, 4, 5, 6, 7, 8], #v[8, 7, 6, 5, 4, 3, 2, 1]].Perm
        [#v[8, 7, 6, 5, 4, 3, 2, 1], #v[1, 2, 3, 4, 5, 6, 7, 8]] ∧
      hashBytes (joined [#v[1, 2, 3, 4, 5, 6, 7, 8], #v[8, 7, 6, 5, 4, 3, 2, 1]] ++ [7])
        = hashBytes (joined [#v[8, 7, 6, 5, 4, 3, 2, 1], #v[1, 2, 3, 4, 5, 6, 7, 8]] ++ [7])) ∧
    (([1] : List UInt8).length % 8 + 2 < 8 ∧
      hashBytes ([1] ++ List.replicate 2 0) = hashBytes [1]) :=
  ⟨⟨rfl, hashBytes_homomorphic.1 _ _ rfl⟩,
    ⟨by decide, hashBytes_homomorphic.2.1 _ (by decide)⟩,
    ⟨List.Perm.swap _ _ _, hashBytes_homomorphic.2.2.1 _ _ _ (List.Perm.swap _ _ _)⟩,
    by decide, hashBytes_homomorphic.2.2.2.2 _ _ (by decide)⟩

end StateSpace

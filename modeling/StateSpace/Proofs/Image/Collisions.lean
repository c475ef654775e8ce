/-
**Changes of one block change the hash.**

* `mix_bijective` — mixing loses nothing. A word plus or minus a shift of itself is a multiple of it
  by an odd number (`shiftAdd_injective`, `shiftSubtract_injective`), and a word that is combined
  with its upper bits can be read off from the top (`shiftXor_injective`).
* `littleEndian_injective`, `tailKey_injective` — the bytes of a word, full or not, are the digits
  of a number. Where the tail is accumulated, `tailStep_fits` says that no sum is too large.
* `hashBytes_separates_blocks` — so two byte strings of one length that differ inside one block of
  eight bytes only have different hashes: everything else cancels.
-/

import Mathlib.Data.Fintype.EquivFin
import Mathlib.Data.Int.GCD
import Mathlib.Data.Nat.ModEq
import Mathlib.Data.UInt
import StateSpace.Proofs.Image.Words

namespace StateSpace

/-! ### Mixing a word -/

/-- A product with an odd number modulo a power of two determines the other factor. -/
theorem multiple_injective (factor : UInt64) (odd : factor.toNat % 2 = 1) :
    Function.Injective fun key : UInt64 => key * factor := by
  intro first second same
  have coprime : Nat.gcd (2 ^ 64) factor.toNat = 1 := by
    apply Nat.Coprime.pow_left
    rw [Nat.Coprime, Nat.gcd_rec, odd, Nat.gcd_one_left]
  have congruent : first.toNat * factor.toNat ≡ second.toNat * factor.toNat [MOD 2 ^ 64] := by
    have products : (first * factor).toNat = (second * factor).toNat := congrArg UInt64.toNat same
    rwa [UInt64.toNat_mul, UInt64.toNat_mul] at products
  have residues := Nat.ModEq.cancel_right_of_coprime coprime congruent
  exact UInt64.toNat_inj.mp (residues.eq_of_lt_of_lt first.toNat_lt second.toNat_lt)

theorem shiftLeft_eq_mul (key shift : UInt64) : key <<< shift = key * (1 <<< shift) := by
  apply UInt64.toNat_inj.mp
  rw [UInt64.toNat_mul, UInt64.toNat_shiftLeft, UInt64.toNat_shiftLeft, Nat.mul_mod_mod,
    Nat.shiftLeft_eq, Nat.shiftLeft_eq, UInt64.toNat_one, Nat.one_mul]

theorem shiftAdd_injective (shift : UInt64) (odd : (1 + (1 : UInt64) <<< shift).toNat % 2 = 1) :
    Function.Injective fun key : UInt64 => key + key <<< shift := by
  have multiple : (fun key : UInt64 => key + key <<< shift)
      = fun key => key * (1 + (1 : UInt64) <<< shift) := by
    funext key
    rw [shiftLeft_eq_mul]
    grind
  rw [multiple]
  exact multiple_injective _ odd

theorem shiftSubtract_injective (shift : UInt64)
    (odd : (1 - (1 : UInt64) <<< shift).toNat % 2 = 1) :
    Function.Injective fun key : UInt64 => key + ~~~(key <<< shift) := by
  -- a complement is the negated word less one
  have multiple : (fun key : UInt64 => key + ~~~(key <<< shift))
      = fun key => key * (1 - (1 : UInt64) <<< shift) - 1 := by
    funext key
    rw [shiftLeft_eq_mul, UInt64.not_eq_neg_sub]
    grind
  rw [multiple]
  intro first second same
  exact multiple_injective _ odd ((UInt64.sub_left_inj 1).mp same)

/-- Where two words differ, they differ in an uppermost bit, and that bit is not combined with
another one. -/
theorem shiftXor_injective (shift : UInt64) (moves : 0 < shift.toNat % 64) :
    Function.Injective fun key : UInt64 => key ^^^ key >>> shift := by
  intro first second same
  have fixed : first ^^^ second = (first ^^^ second) >>> shift := by
    have sum : (first ^^^ first >>> shift) ^^^ (second ^^^ second >>> shift) = 0 :=
      UInt64.xor_eq_zero_iff.mpr same
    rw [UInt64.shiftRight_xor, ← UInt64.xor_eq_zero_iff]
    rw [← sum]
    ac_rfl
  have smaller : (first ^^^ second).toNat
      = (first ^^^ second).toNat / 2 ^ (shift.toNat % 64) := by
    rw [← Nat.shiftRight_eq_div_pow, ← UInt64.toNat_shiftRight, ← fixed]
  have zero : (first ^^^ second).toNat = 0 := by
    by_contra nonzero
    have power : 1 < 2 ^ (shift.toNat % 64) := Nat.one_lt_two_pow (by omega)
    have less := Nat.div_lt_self (Nat.pos_of_ne_zero nonzero) power
    omega
  exact UInt64.xor_eq_zero_iff.mp (UInt64.toNat_inj.mp zero)

theorem mix_injective : Function.Injective mix := by
  have steps : mix = (fun key : UInt64 => key ^^^ key >>> 16)
      ∘ (fun key : UInt64 => key + ~~~(key <<< 11)) ∘ (fun key : UInt64 => key ^^^ key >>> 6)
      ∘ (fun key : UInt64 => key + key <<< 3) ∘ (fun key : UInt64 => key ^^^ key >>> 10)
      ∘ (fun key : UInt64 => key + ~~~(key <<< 15)) := rfl
  rw [steps]
  refine (shiftXor_injective 16 (by decide)).comp ?_
  refine (shiftSubtract_injective 11 (by decide)).comp ?_
  refine (shiftXor_injective 6 (by decide)).comp ?_
  refine (shiftAdd_injective 3 (by decide)).comp ?_
  exact (shiftXor_injective 10 (by decide)).comp (shiftSubtract_injective 15 (by decide))

/-- **Mixing is a permutation of the words.** -/
theorem mix_bijective : Function.Bijective mix := by
  have finite : Finite UInt64 := Finite.of_injective UInt64.toFin UInt64.toFin_injective
  exact Finite.injective_iff_bijective.mp mix_injective

/-! ### The bytes of a word -/

/-- One more byte below some that leave room for it. -/
theorem littleEndian_cons_toNat (first : UInt8) {rest : List UInt8}
    (fits : (littleEndian rest).toNat < 256 ^ 7) :
    (littleEndian (first :: rest)).toNat = first.toNat + 256 * (littleEndian rest).toNat := by
  have digit := first.toNat_lt
  have factor : (256 : UInt64).toNat = 256 := rfl
  rw [littleEndian, UInt64.toNat_add, UInt64.toNat_mul, UInt8.toNat_toUInt64, factor]
  omega

theorem littleEndian_toNat_lt {bytes : List UInt8} (short : bytes.length ≤ 8) :
    (littleEndian bytes).toNat < 256 ^ bytes.length := by
  induction bytes with
  | nil => decide
  | cons first rest ih =>
    rw [List.length_cons] at short
    have bound := ih (by omega)
    have room : 256 ^ rest.length ≤ 256 ^ 7 := Nat.pow_le_pow_right (by decide) (by omega)
    have digit := first.toNat_lt
    rw [littleEndian_cons_toNat first (by omega), List.length_cons, Nat.pow_succ]
    omega

/-- **A full word determines its bytes.** -/
theorem littleEndian_injective {first second : List UInt8} (length : first.length = second.length)
    (short : first.length ≤ 8) (same : littleEndian first = littleEndian second) :
    first = second := by
  induction first generalizing second with
  | nil => exact (List.eq_nil_of_length_eq_zero length.symm).symm
  | cons b bs ih =>
    match second with
    | c :: cs =>
      rw [List.length_cons] at short length
      have lengths : bs.length = cs.length := Nat.succ.inj length
      have room : 256 ^ bs.length ≤ 256 ^ 7 := Nat.pow_le_pow_right (by decide) (by omega)
      have fits := littleEndian_toNat_lt (show bs.length ≤ 8 by omega)
      have fits' := littleEndian_toNat_lt (show cs.length ≤ 8 by omega)
      rw [← lengths] at fits'
      have numbers := congrArg UInt64.toNat same
      rw [littleEndian_cons_toNat b (by omega), littleEndian_cons_toNat c (by omega)] at numbers
      have digit := b.toNat_lt
      have digit' := c.toNat_lt
      have firsts : b = c := UInt8.toNat_inj.mp (by omega)
      have rests : bs = cs := ih lengths (by omega) (UInt64.toNat_inj.mp (by omega))
      rw [firsts, rests]

theorem bigEndian_injective {first second : List UInt8} (length : first.length = second.length)
    (same : bigEndian first = bigEndian second) : first = second := by
  induction first generalizing second with
  | nil => exact (List.eq_nil_of_length_eq_zero length.symm).symm
  | cons b bs ih =>
    match second with
    | c :: cs =>
      have lengths : bs.length = cs.length := Nat.succ.inj length
      have lower := bigEndian_lt bs
      have lower' := bigEndian_lt cs
      rw [bigEndian_cons, bigEndian_cons, ← lengths] at same
      rw [← lengths] at lower'
      have positive : 0 < 256 ^ bs.length := Nat.zero_lt_of_lt lower
      have digits : b.toNat = c.toNat := by
        have quotients := congrArg (· / 256 ^ bs.length) same
        simpa only [Nat.mul_comm _ (256 ^ bs.length), Nat.mul_add_div positive,
          Nat.div_eq_of_lt lower, Nat.div_eq_of_lt lower', Nat.add_zero] using quotients
      rw [digits] at same
      rw [UInt8.toNat_inj.mp digits, ih lengths (Nat.add_left_cancel same)]

/-- **A tail of a known length is determined by what it contributes.** -/
theorem tailKey_injective {first second : List UInt8} (length : first.length = second.length)
    (short : first.length ≤ 8) (same : tailKey first = tailKey second) : first = second := by
  have numbers := congrArg UInt64.toNat same
  rw [tailKey_toNat first short, tailKey_toNat second (length ▸ short), ← length] at numbers
  exact bigEndian_injective length (Nat.eq_of_mul_eq_mul_right (Nat.pow_pos (by decide)) numbers)

/-- A word that was moved up by a byte has room for one, whatever was moved out of it. -/
theorem tailStep_fits (key : UInt64) (byte : UInt8) : (key * 256).toNat + byte.toNat < 2 ^ 64 := by
  have digit := byte.toNat_lt
  have factor : (256 : UInt64).toNat = 256 := rfl
  rw [UInt64.toNat_mul, factor]
  omega

/-! ### One block -/

/-- In front of a fixed rest, a full word is determined by the hash, and so is a last one that is
not full. -/
theorem hashBytes_block_injective {block block' rest : List UInt8}
    (length : block.length = block'.length)
    (place : block.length = 8 ∨ block.length < 8 ∧ rest = [])
    (same : hashBytes (block ++ rest) = hashBytes (block' ++ rest)) : block = block' := by
  rcases place with full | ⟨short, rfl⟩
  · have full' : block'.length = 8 := length ▸ full
    rw [hashBytes_append block rest (by rw [full]), hashBytes_append block' rest (by rw [full']),
      UInt64.xor_left_inj, hashBytes_word full, hashBytes_word full'] at same
    exact littleEndian_injective length (Nat.le_of_eq full) (mix_injective same)
  · rw [List.append_nil, List.append_nil, hashBytes_of_short short,
      hashBytes_of_short (length ▸ short)] at same
    exact tailKey_injective length (Nat.le_of_lt short) same

/-- Byte strings that differ inside one block only have the same bytes before it and behind it. -/
theorem exists_block {first second : List UInt8} {index : Nat}
    (length : first.length = second.length) (different : first ≠ second)
    (inBlock : ∀ position < first.length,
      first[position]? ≠ second[position]? → position / 8 = index) :
    ∃ front block block' rest : List UInt8,
      first = front ++ (block ++ rest) ∧ second = front ++ (block' ++ rest) ∧
        front.length % 8 = 0 ∧ block.length = block'.length ∧
        (block.length = 8 ∨ block.length < 8 ∧ rest = []) := by
  have agree : ∀ position, position / 8 ≠ index → first[position]? = second[position]? := by
    intro position outside
    by_cases inside : position < first.length
    · by_contra differ
      exact outside (inBlock position inside differ)
    · rw [List.getElem?_eq_none (by omega), List.getElem?_eq_none (by omega)]
  have before : first.take (8 * index) = second.take (8 * index) := by
    apply List.ext_getElem?
    intro position
    rw [List.getElem?_take, List.getElem?_take]
    split
    · exact agree position (by omega)
    · rfl
  have behind : (first.drop (8 * index)).drop 8 = (second.drop (8 * index)).drop 8 := by
    apply List.ext_getElem?
    intro position
    rw [List.drop_drop, List.drop_drop, List.getElem?_drop, List.getElem?_drop]
    exact agree _ (by omega)
  -- the block lies inside, since everything before it is the same
  have inside : 8 * index ≤ first.length := by
    by_contra beyond
    apply different
    rw [← List.take_of_length_le (show first.length ≤ 8 * index by omega), before,
      List.take_of_length_le (by omega)]
  refine ⟨first.take (8 * index), (first.drop (8 * index)).take 8,
    (second.drop (8 * index)).take 8, (first.drop (8 * index)).drop 8, ?_, ?_, ?_, ?_, ?_⟩
  · rw [List.take_append_drop, List.take_append_drop]
  · rw [before, behind, List.take_append_drop, List.take_append_drop]
  · rw [List.length_take]
    omega
  · simp only [List.length_take, List.length_drop, length]
  · rw [List.drop_eq_nil_iff, List.length_take, List.length_drop]
    omega

/-- **Differences in one block are seen.** -/
theorem hashBytes_ne_of_block {first second : List UInt8} {index : Nat}
    (length : first.length = second.length) (different : first ≠ second)
    (inBlock : ∀ position < first.length,
      first[position]? ≠ second[position]? → position / 8 = index) :
    hashBytes first ≠ hashBytes second := by
  obtain ⟨front, block, block', rest, rfl, rfl, aligned, lengths, place⟩ :=
    exists_block length different inBlock
  rw [hashBytes_append _ _ aligned, hashBytes_append _ _ aligned, Ne, UInt64.xor_right_inj]
  intro same
  exact different (by rw [hashBytes_block_injective lengths place same])

/-- **The hash tells apart what differs in one block.** Two byte strings of one length have
different hashes if they differ, and only inside one block of eight bytes, be it a full word or what
is left at the end. For mixing is a permutation, a tail of a given length is determined by what it
contributes, and no sum overflows while it is accumulated. -/
theorem hashBytes_separates_blocks :
    (∀ (first second : List UInt8) (index : Nat), first.length = second.length → first ≠ second →
      (∀ position < first.length,
        first[position]? ≠ second[position]? → position / 8 = index) →
      hashBytes first ≠ hashBytes second) ∧
    Function.Bijective mix ∧
    (∀ first second : List UInt8, first.length = second.length → first.length < 8 →
      (tailKey first = tailKey second ↔ first = second)) ∧
    (∀ (key : UInt64) (byte : UInt8), (key * 256).toNat + byte.toNat < 2 ^ 64) := by
  refine ⟨fun first second index length different inBlock =>
    hashBytes_ne_of_block length different inBlock, mix_bijective,
    fun first second length short => ⟨tailKey_injective length (Nat.le_of_lt short), ?_⟩,
    tailStep_fits⟩
  rintro rfl
  rfl

/-- Two bytes of the second of three blocks are exchanged; and the two bytes of a tail. -/
theorem hashBytes_separates_blocks_exchanged :
    (∃ first second : List UInt8, first.length = second.length ∧ first ≠ second ∧
      (∀ position < first.length, first[position]? ≠ second[position]? → position / 8 = 1) ∧
      hashBytes first ≠ hashBytes second) ∧
    ∃ first second : List UInt8, first.length = second.length ∧ first.length < 8 ∧
      (tailKey first = tailKey second ↔ first = second) := by
  refine ⟨⟨[1, 2, 3, 4, 5, 6, 7, 8, 9, 10, 11, 12, 13, 14, 15, 16, 17],
      [1, 2, 3, 4, 5, 6, 7, 8, 10, 9, 11, 12, 13, 14, 15, 16, 17], rfl, by decide, by decide, ?_⟩,
    [0x80, 1], [1, 0x80], rfl, by decide, ?_⟩
  · exact hashBytes_separates_blocks.1 _ _ 1 rfl (by decide) (by decide)
  · exact hashBytes_separates_blocks.2.2.1 _ _ rfl (by decide)

end StateSpace

/-
**The tail of a hash.**

* `bigEndian` — the number whose digits are some bytes, the most significant one first.
* `tailKey_toNat` — fewer than eight bytes contribute this number, moved up to the top of the word:
  nothing overflows.
* `tailKey_append_eq_iff` — the positions that are missing count as zeros, so that a tail and an
  extension of it inside the word contribute the same exactly if the extension is all zeros.
* `hashBytes_append_eq_iff` — the same for whole byte strings.
-/

import Mathlib.Algebra.Group.Nat.Defs
import Mathlib.Data.List.Induction
import StateSpace.Image.Hash

namespace StateSpace

/-- The number whose digits are some bytes, the first one most significant. -/
def bigEndian (bytes : List UInt8) : Nat :=
  bytes.foldl (fun number byte => number * 256 + byte.toNat) 0

theorem foldl_bigEndian (bytes : List UInt8) (number : Nat) :
    bytes.foldl (fun number byte => number * 256 + byte.toNat) number
      = number * 256 ^ bytes.length + bigEndian bytes := by
  unfold bigEndian
  induction bytes generalizing number with
  | nil => simp
  | cons first rest ih =>
    rw [List.foldl_cons, ih, List.foldl_cons, ih (0 * 256 + first.toNat), List.length_cons,
      Nat.pow_succ', Nat.zero_mul, Nat.zero_add, Nat.add_mul, Nat.mul_assoc, Nat.add_assoc]

theorem bigEndian_append (first second : List UInt8) :
    bigEndian (first ++ second) = bigEndian first * 256 ^ second.length + bigEndian second := by
  rw [bigEndian, List.foldl_append, foldl_bigEndian]
  rfl

theorem bigEndian_cons (first : UInt8) (rest : List UInt8) :
    bigEndian (first :: rest) = first.toNat * 256 ^ rest.length + bigEndian rest := by
  rw [bigEndian, List.foldl_cons, foldl_bigEndian, Nat.zero_mul, Nat.zero_add]

theorem bigEndian_lt (bytes : List UInt8) : bigEndian bytes < 256 ^ bytes.length := by
  induction bytes with
  | nil => simp [bigEndian]
  | cons first rest ih =>
    have digit : first.toNat + 1 ≤ 256 := first.toNat_lt
    have bound := Nat.mul_le_mul_right (256 ^ rest.length) digit
    rw [bigEndian_cons, List.length_cons, Nat.pow_succ']
    rw [Nat.add_mul, Nat.one_mul] at bound
    omega

theorem bigEndian_eq_zero_iff {bytes : List UInt8} :
    bigEndian bytes = 0 ↔ ∀ byte ∈ bytes, byte = 0 := by
  induction bytes with
  | nil => simp [bigEndian]
  | cons first rest ih =>
    have positive : 256 ^ rest.length ≠ 0 := by simp
    rw [bigEndian_cons, Nat.add_eq_zero_iff, ih, Nat.mul_eq_zero, List.forall_mem_cons]
    refine and_congr_left' ⟨fun zero => ?_, fun zero => .inl (by rw [zero]; rfl)⟩
    exact UInt8.toNat_inj.mp (zero.resolve_right positive)

/-! ### The tail -/

/-- Accumulating fewer than nine bytes in a word does not overflow. -/
theorem toNat_foldl_tail (tail : List UInt8) (short : tail.length ≤ 8) :
    (tail.foldl (fun key byte => key * 256 + byte.toUInt64) (0 : UInt64)).toNat =
      bigEndian tail := by
  induction tail using List.reverseRecOn with
  | nil => rfl
  | append_singleton rest last ih =>
    rw [List.length_append, List.length_singleton] at short
    have bound : bigEndian (rest ++ [last]) < 2 ^ 64 := by
      refine Nat.lt_of_lt_of_le (bigEndian_lt _) ?_
      rw [List.length_append, List.length_singleton, show 2 ^ 64 = 256 ^ 8 by decide]
      exact Nat.pow_le_pow_right (by decide) short
    have value : bigEndian (rest ++ [last]) = bigEndian rest * 256 + last.toNat := by
      rw [bigEndian_append, List.length_singleton, Nat.pow_one, bigEndian_cons]
      simp [bigEndian]
    rw [List.foldl_append, List.foldl_cons, List.foldl_nil, UInt64.toNat_add, UInt64.toNat_mul,
      ih (by omega), UInt8.toNat_toUInt64, value]
    rw [value] at bound
    have factor : (256 : UInt64).toNat = 256 := rfl
    rw [factor, Nat.mod_add_mod, Nat.mod_eq_of_lt bound]

/-- Moving a word up by whole bytes, as long as nothing is lost. -/
theorem toNat_repeat_shift (count : Nat) (key : UInt64) (fits : key.toNat * 256 ^ count < 2 ^ 64) :
    (Nat.repeat (fun key => key * 256) count key).toNat = key.toNat * 256 ^ count := by
  induction count with
  | zero => simp [Nat.repeat]
  | succ count ih =>
    have smaller : key.toNat * 256 ^ count < 2 ^ 64 := by
      refine Nat.lt_of_le_of_lt ?_ fits
      exact Nat.mul_le_mul_left _ (Nat.pow_le_pow_right (by decide) (Nat.le_succ count))
    have factor : (256 : UInt64).toNat = 256 := rfl
    rw [Nat.repeat, UInt64.toNat_mul, ih smaller, factor, Nat.mul_assoc, ← Nat.pow_succ,
      Nat.mod_eq_of_lt fits]

/-- **The tail as a number**: its bytes, followed by zeros up to the end of the word. -/
theorem tailKey_toNat (tail : List UInt8) (short : tail.length ≤ 8) :
    (tailKey tail).toNat = bigEndian tail * 256 ^ (8 - tail.length) := by
  have value := toNat_foldl_tail tail short
  have fits : bigEndian tail * 256 ^ (8 - tail.length) < 2 ^ 64 := by
    have bound := Nat.mul_lt_mul_of_pos_right (bigEndian_lt tail)
      (show 0 < 256 ^ (8 - tail.length) from Nat.pow_pos (by decide))
    rw [← Nat.pow_add, show tail.length + (8 - tail.length) = 8 by omega] at bound
    exact bound
  rw [tailKey, toNat_repeat_shift, value]
  rwa [value]

theorem tailKey_nil : tailKey [] = 0 := rfl

/-- **Zeros at the end of a tail do not count**, and nothing else is lost. -/
theorem tailKey_append_eq_iff (tail rest : List UInt8) (short : tail.length + rest.length ≤ 8) :
    tailKey (tail ++ rest) = tailKey tail ↔ ∀ byte ∈ rest, byte = 0 := by
  have positive : 256 ^ (8 - (tail.length + rest.length)) ≠ 0 := by simp
  have split : 256 ^ (8 - tail.length)
      = 256 ^ rest.length * 256 ^ (8 - (tail.length + rest.length)) := by
    rw [← Nat.pow_add]
    congr 1
    omega
  rw [← UInt64.toNat_inj, tailKey_toNat _ (by rw [List.length_append]; exact short),
    tailKey_toNat tail (by omega), List.length_append, bigEndian_append, split, Nat.add_mul,
    Nat.mul_assoc, ← bigEndian_eq_zero_iff]
  constructor
  · intro same
    have zero : bigEndian rest * 256 ^ (8 - (tail.length + rest.length)) = 0 := by omega
    exact (Nat.mul_eq_zero.mp zero).resolve_right positive
  · intro zero
    rw [zero, Nat.zero_mul, Nat.add_zero]

/-! ### Whole byte strings -/

theorem hashBytes_of_short {bytes : List UInt8} (short : bytes.length < 8) :
    hashBytes bytes = tailKey bytes := by
  unfold hashBytes
  split
  · simp at short
    omega
  · rfl

/-- Bytes that do not begin with a full word are fewer than eight. -/
theorem length_lt_of_not_full {tail : List UInt8}
    (notFull : ∀ b₀ b₁ b₂ b₃ b₄ b₅ b₆ b₇ rest,
      tail = b₀ :: b₁ :: b₂ :: b₃ :: b₄ :: b₅ :: b₆ :: b₇ :: rest → False) :
    tail.length < 8 := by
  refine Nat.lt_of_not_le fun full => ?_
  match tail, full with
  | b₀ :: b₁ :: b₂ :: b₃ :: b₄ :: b₅ :: b₆ :: b₇ :: others, _ =>
    exact notFull b₀ b₁ b₂ b₃ b₄ b₅ b₆ b₇ others rfl

/-- **Extending a byte string inside its last word** keeps the hash exactly if only zeros are
added. -/
theorem hashBytes_append_eq_iff (bytes rest : List UInt8)
    (short : bytes.length % 8 + rest.length < 8) :
    hashBytes (bytes ++ rest) = hashBytes bytes ↔ ∀ byte ∈ rest, byte = 0 := by
  fun_induction hashBytes bytes with
  | case1 b₀ b₁ b₂ b₃ b₄ b₅ b₆ b₇ others ih =>
    have shorter : others.length % 8 + rest.length < 8 := by
      simp only [List.length_cons] at short
      omega
    rw [← ih shorter]
    simp only [List.cons_append, hashBytes]
    exact UInt64.xor_right_inj _
  | case2 tail notFull =>
    have small : tail.length < 8 := length_lt_of_not_full notFull
    rw [Nat.mod_eq_of_lt small] at short
    rw [hashBytes_of_short (by rw [List.length_append]; exact short)]
    exact tailKey_append_eq_iff tail rest (Nat.le_of_lt short)

end StateSpace

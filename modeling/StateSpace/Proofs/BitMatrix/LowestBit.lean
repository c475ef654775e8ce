/-
**The lowest set bit of a word.**

A number other than zero is `2 ^ (low + 1) * high + 2 ^ low`, where `low` is the position of its
lowest one (`exists_lowest`). Its predecessor has the same digits above `low` and the opposite ones
from there on, which gives the two steps of the loop over the set bits of a word:

* `trailingZeros_eq`, `toNat_and_pred` — the position that is found, and the word that is left.
* `testBit_trailingZeros`, `trailingZeros_le`, `testBit_and_pred` — the position is the least one of
  a set bit, and just this bit is cleared.
* `mem_setBits`, `pairwise_setBits` — so the loop lists every set bit, and in ascending order.
* `length_setBits` — and as many as there are ones among the binary digits.
-/

import Mathlib.Algebra.Group.Nat.Defs
import StateSpace.BitMatrix.Basic

namespace StateSpace

/-! ### Numbers -/

/-- **Every number other than zero has a lowest one** among its binary digits. -/
theorem exists_lowest (number : Nat) (nonzero : number ≠ 0) :
    ∃ low high, number = 2 ^ (low + 1) * high + 2 ^ low := by
  induction number using Nat.strongRecOn with
  | ind number ih =>
    rcases Nat.mod_two_eq_zero_or_one number with even | odd
    · obtain ⟨low, high, half⟩ := ih (number / 2) (by omega) (by omega)
      refine ⟨low + 1, high, ?_⟩
      have double : number = 2 * (number / 2) := by omega
      rw [double, half, Nat.mul_add, ← Nat.mul_assoc, ← Nat.pow_succ', ← Nat.pow_succ']
    · refine ⟨0, number / 2, ?_⟩
      omega

/-- The digits up to the lowest one are zeros. -/
theorem testBit_lowest (low high position : Nat) :
    (2 ^ (low + 1) * high + 2 ^ low).testBit position
      = if position < low + 1 then decide (low = position)
        else high.testBit (position - (low + 1)) := by
  have small : 2 ^ low < 2 ^ (low + 1) := Nat.pow_lt_pow_succ (by decide)
  rw [Nat.testBit_two_pow_mul_add _ small, Nat.testBit_two_pow]

/-- In the predecessor they are ones, up to where the lowest one was. -/
theorem testBit_lowest_pred (low high position : Nat) :
    (2 ^ (low + 1) * high + 2 ^ low - 1).testBit position
      = if position < low + 1 then decide (position < low)
        else high.testBit (position - (low + 1)) := by
  have one : 1 ≤ 2 ^ low := Nat.one_le_two_pow
  have small : 2 ^ low - 1 < 2 ^ (low + 1) :=
    Nat.lt_of_le_of_lt (Nat.sub_le _ _) (Nat.pow_lt_pow_succ (by decide))
  rw [Nat.add_sub_assoc one, Nat.testBit_two_pow_mul_add _ small, Nat.testBit_two_pow_sub_one]

/-- A number and its predecessor differ in the lowest one and below it. -/
theorem lowest_xor_pred (low high : Nat) :
    (2 ^ (low + 1) * high + 2 ^ low) ^^^ (2 ^ (low + 1) * high + 2 ^ low - 1)
      = 2 ^ (low + 1) - 1 := by
  apply Nat.eq_of_testBit_eq
  intro position
  rw [Nat.testBit_xor, testBit_lowest, testBit_lowest_pred, Nat.testBit_two_pow_sub_one]
  by_cases below : position < low + 1
  · rw [if_pos below, if_pos below, decide_eq_true below]
    rcases Nat.lt_succ_iff_lt_or_eq.mp below with less | rfl
    · simp [less, Nat.ne_of_gt less]
    · simp
  · rw [if_neg below, if_neg below, decide_eq_false below, Bool.xor_self]

/-- What they have in common lies above the lowest one. -/
theorem lowest_and_pred (low high : Nat) :
    (2 ^ (low + 1) * high + 2 ^ low) &&& (2 ^ (low + 1) * high + 2 ^ low - 1)
      = 2 ^ (low + 1) * high := by
  apply Nat.eq_of_testBit_eq
  intro position
  rw [Nat.testBit_and, testBit_lowest, testBit_lowest_pred, Nat.testBit_two_pow_mul]
  by_cases below : position < low + 1
  · rw [if_pos below, if_pos below, decide_eq_false (Nat.not_le_of_lt below), Bool.false_and,
      ← Bool.decide_and, decide_eq_false]
    rintro ⟨rfl, less⟩
    exact Nat.lt_irrefl _ less
  · rw [if_neg below, if_neg below, decide_eq_true (Nat.le_of_not_lt below), Bool.true_and,
      Bool.and_self]

/-- Zeros below the lowest one are not counted. -/
theorem ones_two_pow_mul (low number : Nat) : ones (2 ^ low * number) = ones number := by
  induction low with
  | zero => rw [Nat.pow_zero, Nat.one_mul]
  | succ low ih =>
    rw [← ih, Nat.pow_succ', Nat.mul_assoc, ones]
    by_cases zero : 2 ^ low * number = 0
    · rw [zero, ones]
      rfl
    · rw [if_neg (by omega), Nat.mul_mod_right, Nat.zero_add, Nat.mul_div_cancel_left _ (by decide)]

theorem ones_lowest (low high : Nat) :
    ones (2 ^ (low + 1) * high + 2 ^ low) = ones (2 ^ (low + 1) * high) + 1 := by
  have odd : 2 ^ (low + 1) * high + 2 ^ low = 2 ^ low * (2 * high + 1) := by
    rw [Nat.pow_succ, Nat.mul_add, Nat.mul_assoc, Nat.mul_one]
  rw [odd, ones_two_pow_mul, ones_two_pow_mul, ones, if_neg (Nat.succ_ne_zero _),
    Nat.mul_add_mod, Nat.mul_add_div (by decide), Nat.add_comm]
  rfl

/-! ### Words -/

variable {word : UInt64} {low high position : Nat}

theorem exists_lowest_word (nonzero : word ≠ 0) :
    ∃ low high, word.toNat = 2 ^ (low + 1) * high + 2 ^ low :=
  exists_lowest word.toNat (toNat_ne_zero nonzero)

/-- **The position that the loop finds.** -/
theorem trailingZeros_eq (nonzero : word ≠ 0)
    (split : word.toNat = 2 ^ (low + 1) * high + 2 ^ low) : trailingZeros word = low := by
  have one : 1 ≤ 2 ^ low := Nat.one_le_two_pow
  have next : 2 ^ (low + 1) = 2 ^ low * 2 := Nat.pow_succ ..
  rw [trailingZeros, UInt64.toNat_xor, toNat_pred nonzero, split, lowest_xor_pred,
    Nat.log2_eq_iff (by omega)]
  omega

/-- **The word that it goes on with.** -/
theorem toNat_and_pred (nonzero : word ≠ 0)
    (split : word.toNat = 2 ^ (low + 1) * high + 2 ^ low) :
    (word &&& (word - 1)).toNat = 2 ^ (low + 1) * high := by
  rw [UInt64.toNat_and, toNat_pred nonzero, split, lowest_and_pred]

theorem testBit_trailingZeros (nonzero : word ≠ 0) : testBit word (trailingZeros word) = true := by
  obtain ⟨low, high, split⟩ := exists_lowest_word nonzero
  rw [trailingZeros_eq nonzero split, testBit, split, testBit_lowest, if_pos (Nat.lt_succ_self _)]
  exact decide_eq_true rfl

/-- No bit below it is set. -/
theorem trailingZeros_le (nonzero : word ≠ 0) (set : testBit word position = true) :
    trailingZeros word ≤ position := by
  obtain ⟨low, high, split⟩ := exists_lowest_word nonzero
  rw [testBit, split, testBit_lowest] at set
  rw [trailingZeros_eq nonzero split]
  split at set
  · exact Nat.le_of_eq (of_decide_eq_true set)
  · omega

/-- **The other bits stay as they are.** -/
theorem testBit_and_pred (nonzero : word ≠ 0) (position : Nat) :
    testBit (word &&& (word - 1)) position
      = (testBit word position && decide (position ≠ trailingZeros word)) := by
  obtain ⟨low, high, split⟩ := exists_lowest_word nonzero
  rw [trailingZeros_eq nonzero split, testBit, testBit, toNat_and_pred nonzero split, split,
    testBit_lowest, Nat.testBit_two_pow_mul]
  by_cases below : position < low + 1
  · rw [if_pos below, decide_eq_false (Nat.not_le_of_lt below), Bool.false_and]
    by_cases same : low = position
    · simp [same]
    · simp [same]
  · have different : position ≠ low := by omega
    rw [if_neg below, decide_eq_true (Nat.le_of_not_lt below), decide_eq_true different,
      Bool.true_and, Bool.and_true]

/-! ### The loop -/

/-- The listed positions of a word are its set bits. -/
theorem mem_setBits : position ∈ setBits word ↔ testBit word position = true := by
  fun_induction setBits word with
  | case1 => simp [testBit]
  | case2 word nonzero ih =>
    rw [List.mem_cons, ih, testBit_and_pred nonzero, Bool.and_eq_true, decide_eq_true_eq]
    constructor
    · rintro (rfl | ⟨set, _⟩)
      · exact testBit_trailingZeros nonzero
      · exact set
    · intro set
      by_cases same : position = trailingZeros word
      · exact .inl same
      · exact .inr ⟨set, same⟩

/-- They are listed in ascending order. -/
theorem pairwise_setBits (word : UInt64) : (setBits word).Pairwise (· < ·) := by
  fun_induction setBits word with
  | case1 => exact List.Pairwise.nil
  | case2 word nonzero ih =>
    refine List.pairwise_cons.mpr ⟨fun position member => ?_, ih⟩
    -- what is left has no bit at the position that was found, and had none below it before
    rw [mem_setBits, testBit_and_pred nonzero, Bool.and_eq_true, decide_eq_true_eq] at member
    have least := trailingZeros_le nonzero member.1
    omega

/-- There are as many of them as ones in the word. -/
theorem length_setBits (word : UInt64) : (setBits word).length = ones word.toNat := by
  fun_induction setBits word with
  | case1 => simp [ones]
  | case2 word nonzero ih =>
    obtain ⟨low, high, split⟩ := exists_lowest_word nonzero
    rw [List.length_cons, ih, toNat_and_pred nonzero split, split, ones_lowest]

end StateSpace

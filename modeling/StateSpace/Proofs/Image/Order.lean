/-
**The order of the images.**

* `Image.order_eq_lt_iff` — comparing over the common length and then by size is the lexicographic
  order of the byte strings, so it is linear: `Image.order_isLE_iff` puts it in terms of the order
  of lists.
* `Image.order_eq_eq_iff`, `Image.same_iff` — only an image itself stands beside an image, and that
  is what equality says, for all that it looks at the hashes first.
* `Image.order_linear` — all of this together, and what `Image.compare` alone tells: everything but
  the order of an image and its extensions.
-/

import StateSpace.Proofs.Image.Entries

namespace StateSpace.Image

/-! ### Swapping the two sides -/

theorem compareBytes_swap (first second : List UInt8) :
    compareBytes second first = (compareBytes first second).swap := by
  fun_induction compareBytes first second with
  | case1 b bs c cs less =>
    rw [compareBytes, if_neg (UInt8.lt_asymm less), if_pos less]
    rfl
  | case2 b bs c cs notLess more =>
    rw [compareBytes, if_pos more]
    rfl
  | case3 b bs c cs notLess notMore ih => rw [compareBytes, if_neg notMore, if_neg notLess, ih]
  | case4 bs cs notBoth =>
    rw [compareBytes]
    · rfl
    · exact fun c cs' b bs' second first => notBoth b bs' c cs' first second

theorem compareSize_swap (first second : Nat) :
    compareSize second first = (compareSize first second).swap := by
  unfold compareSize
  grind [Ordering.swap]

theorem order_swap (first second : Image) : second.order first = (first.order second).swap := by
  rw [order, order, Ordering.swap_then, compare, compare, compareBytes_swap, compareSize_swap]

/-! ### The lexicographic order -/

theorem compareSize_eq_lt_iff {first second : Nat} :
    compareSize first second = .lt ↔ first < second := by
  unfold compareSize
  grind

theorem compareSize_eq_eq_iff {first second : Nat} :
    compareSize first second = .eq ↔ first = second := by
  unfold compareSize
  grind

/-- **The common length first, then the size**: of two byte strings that agree as far as both go,
the shorter one comes first. -/
theorem compareBytes_then_eq_lt_iff (first second : List UInt8) :
    (compareBytes first second).then (compareSize first.length second.length) = .lt ↔
      List.Lex (· < ·) first second := by
  fun_induction compareBytes first second with
  | case1 b bs c cs less => exact iff_of_true rfl (.rel less)
  | case2 b bs c cs notLess more =>
    refine iff_of_false (by simp) fun before => ?_
    cases before with
    | rel less => exact notLess less
    | cons _ => exact notLess more
  | case3 b bs c cs notLess notMore ih =>
    have equal : b = c := UInt8.le_antisymm (UInt8.not_lt.mp notMore) (UInt8.not_lt.mp notLess)
    have sizes : compareSize (bs.length + 1) (cs.length + 1)
        = compareSize bs.length cs.length := by
      simp only [compareSize, Nat.add_lt_add_iff_right]
    rw [List.length_cons, List.length_cons, sizes, ih, List.cons_lex_cons_iff,
      or_iff_right notLess, and_iff_right equal]
  | case4 bs cs notBoth =>
    rw [Ordering.eq_then, compareSize_eq_lt_iff]
    -- one of the two is empty
    cases bs with
    | nil => cases cs <;> simp
    | cons b bs =>
      cases cs with
      | nil => simp
      | cons c cs => exact (notBoth b bs c cs rfl rfl).elim

/-- **The order of the images is the lexicographic order of their bytes.** -/
theorem order_eq_lt_iff (first second : Image) :
    first.order second = .lt ↔ List.Lex (· < ·) first.bytes second.bytes :=
  compareBytes_then_eq_lt_iff first.bytes second.bytes

theorem order_eq_gt_iff (first second : Image) :
    first.order second = .gt ↔ List.Lex (· < ·) second.bytes first.bytes := by
  rw [← order_eq_lt_iff, order_swap first second, Ordering.swap_eq_lt]

/-- An image that does not come later: the order of lists has the rules of a linear order. -/
theorem order_isLE_iff (first second : Image) :
    (first.order second).isLE = true ↔ first.bytes ≤ second.bytes := by
  rw [Ordering.isLE_iff_ne_gt, order_eq_gt_iff]
  rfl

theorem order_eq_eq_iff (first second : Image) :
    first.order second = .eq ↔ first.bytes = second.bytes := by
  rw [order, Ordering.then_eq_eq, compare, compareBytes_eq_eq_iff, compareSize_eq_eq_iff]
  constructor
  · rintro ⟨begins | begins, sizes⟩
    · exact begins.eq_of_length sizes
    · exact (begins.eq_of_length sizes.symm).symm
  · intro equal
    exact ⟨.inl (equal ▸ List.prefix_refl _), congrArg List.length equal⟩

/-- Equal bytes have equal hashes, so that looking at these first changes nothing. -/
theorem same_iff (first second : Image) :
    first.same second = true ↔ first.bytes = second.bytes := by
  rw [same, Bool.and_eq_true, beq_iff_eq, beq_iff_eq, and_iff_right_iff_imp]
  intro equal
  rw [first.hash_eq, second.hash_eq, equal]

/-- **The order of the images is linear and agrees with equality.** It is the lexicographic order of
the byte strings. An image stands beside another one exactly if the two are equal, and these are
equal exactly if their bytes are. Over the common length, images compare equal exactly if one begins
the other, and otherwise as the order has them. -/
theorem order_linear (first second third : List UInt8) :
    ((ofBytes first).order (ofBytes second) = .lt ↔ List.Lex (· < ·) first second) ∧
    ((ofBytes first).order (ofBytes second) = .gt ↔ List.Lex (· < ·) second first) ∧
    ((ofBytes first).order (ofBytes second) = .eq ↔
      (ofBytes first).same (ofBytes second) = true) ∧
    ((ofBytes first).same (ofBytes second) = true ↔ first = second) ∧
    (((ofBytes first).order (ofBytes second)).isLE = true ∨
      ((ofBytes second).order (ofBytes first)).isLE = true) ∧
    (((ofBytes first).order (ofBytes second)).isLE = true →
      ((ofBytes second).order (ofBytes first)).isLE = true → ofBytes first = ofBytes second) ∧
    (((ofBytes first).order (ofBytes second)).isLE = true →
      ((ofBytes second).order (ofBytes third)).isLE = true →
      ((ofBytes first).order (ofBytes third)).isLE = true) ∧
    ((ofBytes first).compare (ofBytes second) = .eq ↔ first <+: second ∨ second <+: first) ∧
    ((ofBytes first).compare (ofBytes second) ≠ .eq →
      (ofBytes first).compare (ofBytes second) = (ofBytes first).order (ofBytes second)) := by
  simp only [order_isLE_iff]
  refine ⟨order_eq_lt_iff _ _, order_eq_gt_iff _ _, ?_, same_iff _ _, List.le_total _ _,
    fun before after => eq_of_bytes_eq (List.le_antisymm before after),
    fun before before' => List.le_trans before before', compareBytes_eq_eq_iff, fun decided => ?_⟩
  · rw [order_eq_eq_iff, same_iff]
  · rw [order]
    cases outcome : (ofBytes first).compare (ofBytes second) with
    | lt => rfl
    | eq => exact (decided outcome).elim
    | gt => rfl

/-- An image, its extension and a later image; only the first two compare equal. -/
theorem order_linear_extended :
    (((ofBytes [1, 2]).order (ofBytes [1, 2, 0])).isLE = true ∧
      ((ofBytes [1, 2, 0]).order (ofBytes [1, 3])).isLE = true ∧
      ((ofBytes [1, 2]).order (ofBytes [1, 3])).isLE = true) ∧
    ((ofBytes [1, 2, 0]).compare (ofBytes [1, 3]) ≠ .eq ∧
      (ofBytes [1, 2, 0]).compare (ofBytes [1, 3])
        = (ofBytes [1, 2, 0]).order (ofBytes [1, 3])) :=
  ⟨⟨rfl, rfl, (order_linear [1, 2] [1, 2, 0] [1, 3]).2.2.2.2.2.2.1 rfl rfl⟩,
    by decide, (order_linear [1, 2, 0] [1, 3] []).2.2.2.2.2.2.2.2 (by decide)⟩

end StateSpace.Image

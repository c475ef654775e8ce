/-
**Which images are one entry of the visited table.**

* `Image.compareBytes_eq_eq_iff` — byte strings that agree over their common length are those of
  which one begins the other.
* `Image.sameEntry_iff_eq_of_size_eq` — among images of one length the table tells any two apart.
* `Image.sameEntry_ofBytes_iff` — what the table takes for one entry in general: byte strings of
  which one begins the other and whose hashes collide, as they do whenever the longer one goes on
  with zeros inside the last word.
* `Image.sameEntry_zero_tail` — so `01` and `0100` are one entry, and being one entry is not even
  transitive.
* `Visited.contains_insert` — an insertion adds one entry.
-/

import Mathlib.Tactic.Tauto
import StateSpace.Proofs.Image.Hash
import StateSpace.Search.Visited

namespace StateSpace

namespace Image

theorem compareBytes_eq_eq_iff {first second : List UInt8} :
    compareBytes first second = .eq ↔ first <+: second ∨ second <+: first := by
  fun_induction compareBytes first second with
  | case1 b bs c cs less =>
    have differ : b ≠ c := UInt8.ne_of_lt less
    simp [List.cons_prefix_cons, differ, differ.symm]
  | case2 b bs c cs _ less =>
    have differ : c ≠ b := UInt8.ne_of_lt less
    simp [List.cons_prefix_cons, differ, differ.symm]
  | case3 b bs c cs notLess notMore ih =>
    have equal : b = c := UInt8.le_antisymm (UInt8.not_lt.mp notMore) (UInt8.not_lt.mp notLess)
    simp [List.cons_prefix_cons, equal, ih]
  | case4 bs cs notBoth =>
    -- one of the two is empty, and begins the other
    cases bs with
    | nil => simp
    | cons b bs =>
      cases cs with
      | nil => simp
      | cons c cs => exact (notBoth b bs c cs rfl rfl).elim

/-- Two images are one entry if one begins the other and their hashes collide. -/
theorem sameEntry_iff {first second : Image} :
    first.sameEntry second = true ↔
      (first.bytes <+: second.bytes ∨ second.bytes <+: first.bytes) ∧
        first.hash = second.hash := by
  rw [sameEntry, Bool.and_eq_true, beq_iff_eq, Ordering.isEq_iff_eq_eq, Image.compare,
    compareBytes_eq_eq_iff, and_comm]

/-- The hash is a function of the bytes, so the bytes are all there is. -/
theorem eq_of_bytes_eq {first second : Image} (same : first.bytes = second.bytes) :
    first = second := by
  obtain ⟨bytes, hash, rfl⟩ := first
  obtain ⟨bytes', hash', rfl⟩ := second
  cases same
  rfl

theorem sameEntry_self (image : Image) : image.sameEntry image = true :=
  sameEntry_iff.mpr ⟨.inl (List.prefix_refl _), rfl⟩

/-- **Images of one length are one entry only if they are equal.** -/
theorem sameEntry_iff_eq_of_size_eq {first second : Image} (size : first.size = second.size) :
    first.sameEntry second = true ↔ first = second := by
  constructor
  · intro one
    rcases (sameEntry_iff.mp one).1 with begins | begins
    · exact eq_of_bytes_eq (begins.eq_of_length size)
    · exact eq_of_bytes_eq (begins.eq_of_length size.symm).symm
  · rintro rfl
    exact sameEntry_self first

/-- **The entries of the visited table.** Byte strings are one entry if one begins the other and
their hashes collide. So the table tells different strings apart unless both is the case; strings
of one length it always does; and inside its last word a string is one entry with an extension of it
exactly if the extension adds nothing but zeros. -/
theorem sameEntry_ofBytes_iff (first second : List UInt8) :
    ((ofBytes first).sameEntry (ofBytes second) = true ↔
      (first <+: second ∨ second <+: first) ∧ hashBytes first = hashBytes second) ∧
    (((ofBytes first).sameEntry (ofBytes second) = true ↔ first = second) ↔
      first = second ∨ ¬ (first <+: second ∨ second <+: first) ∨
        hashBytes first ≠ hashBytes second) ∧
    (first.length = second.length →
      ((ofBytes first).sameEntry (ofBytes second) = true ↔ first = second)) ∧
    (∀ rest : List UInt8, first.length % 8 + rest.length < 8 →
      ((ofBytes first).sameEntry (ofBytes (first ++ rest)) = true ↔ ∀ byte ∈ rest, byte = 0)) := by
  have general : ∀ other : List UInt8, (ofBytes first).sameEntry (ofBytes other) = true ↔
      (first <+: other ∨ other <+: first) ∧ hashBytes first = hashBytes other :=
    fun _ => sameEntry_iff
  refine ⟨general second, ?_, fun length => ?_, fun rest short => ?_⟩
  · have self : first = second → (first <+: second ∨ second <+: first) ∧
        hashBytes first = hashBytes second := by
      rintro rfl
      exact ⟨.inl (List.prefix_refl first), rfl⟩
    rw [general]
    tauto
  · have size : (ofBytes first).size = (ofBytes second).size := length
    rw [sameEntry_iff_eq_of_size_eq size]
    exact ⟨fun equal => congrArg Image.bytes equal, fun equal => equal ▸ rfl⟩
  · rw [general, ← hashBytes_append_eq_iff first rest short]
    exact ⟨fun one => one.2.symm, fun same => ⟨.inl (List.prefix_append first rest), same.symm⟩⟩

theorem sameEntry_ofBytes_iff_two_zeros :
    [1].length % 8 + [0, 0].length < 8 ∧
      ((ofBytes [1]).sameEntry (ofBytes ([1] ++ [0, 0])) = true ↔
        ∀ byte ∈ ([0, 0] : List UInt8), byte = 0) :=
  ⟨by decide, (sameEntry_ofBytes_iff [1] []).2.2.2 [0, 0] (by decide)⟩

/-- **Different images that are one entry.** Zeros at the end are lost. And the empty image is one
entry with the image of a zero and with that of a word written twice, which are two entries. -/
theorem sameEntry_zero_tail :
    ((ofBytes [1]).sameEntry (ofBytes [1, 0]) = true ∧ ofBytes [1] ≠ ofBytes [1, 0]) ∧
    ((ofBytes [0]).sameEntry (ofBytes []) = true ∧
      (ofBytes []).sameEntry (ofBytes [1, 0, 0, 0, 0, 0, 0, 0, 1, 0, 0, 0, 0, 0, 0, 0]) = true ∧
      (ofBytes [0]).sameEntry (ofBytes [1, 0, 0, 0, 0, 0, 0, 0, 1, 0, 0, 0, 0, 0, 0, 0])
        = false) := by
  decide +kernel

end Image

/-! ### The table -/

namespace Visited

theorem bucket_insert (table : Visited) (image : Image) (hash : UInt64) :
    (table.insert image).bucket hash
      = if image.hash = hash then image :: table.bucket hash else table.bucket hash := by
  rw [bucket, insert, Std.TreeMap.getD_insert]
  by_cases same : image.hash = hash
  · rw [if_pos same, if_pos (by rw [same]; exact Std.ReflCmp.compare_self), same]
  · rw [if_neg same, if_neg (by rwa [Std.LawfulEqCmp.compare_eq_iff_eq])]
    rfl

@[simp] theorem contains_empty (image : Image) : empty.contains image = false := by
  simp [contains, bucket, empty]

/-- **An insertion adds one entry.** -/
theorem contains_insert (table : Visited) (image other : Image) :
    (table.insert image).contains other = (other.sameEntry image || table.contains other) := by
  rw [contains, contains, bucket_insert]
  by_cases same : image.hash = other.hash
  · rw [if_pos same, List.any_cons]
  · have apart : other.sameEntry image = false := by
      rw [Image.sameEntry, beq_eq_false_iff_ne.mpr (Ne.symm same), Bool.false_and]
    rw [if_neg same, apart, Bool.false_or]

end Visited

end StateSpace

/-
**Lists.**

* `eraseDups_concat` — one more entry of a list of which each entry is kept where it occurs first.
* `mapM_eq_ok` — a computation for each entry of a list.
-/

import Mathlib.Data.List.Induction

namespace StateSpace

/-! ### Lists without repetitions -/

section

variable {α : Type} [DecidableEq α]

/-- One more entry is new, or it was there before. -/
theorem eraseDups_concat (entries : List α) (entry : α) :
    (entries ++ [entry]).eraseDups
      = entries.eraseDups ++ if entry ∈ entries then [] else [entry] := by
  rw [List.eraseDups_append]
  by_cases member : entry ∈ entries
  · simp [List.removeAll, member]
  · simp [List.removeAll, member, List.eraseDups_cons]

theorem nodup_eraseDups (entries : List α) : entries.eraseDups.Nodup := by
  induction entries using List.reverseRecOn with
  | nil => exact List.nodup_nil
  | append_singleton entries entry ih =>
    rw [eraseDups_concat]
    by_cases member : entry ∈ entries
    · simpa [member] using ih
    · simp [member, List.nodup_append, ih]
      exact fun other known same => member (same ▸ known)

end

/-! ### Computing something for each entry -/

/-- A computation that succeeds for each entry of a list succeeds for all of them. -/
theorem mapM_eq_ok {α β ε : Type} {compute : α → Except ε β} {result : α → β} {entries : List α}
    (succeeds : ∀ entry ∈ entries, compute entry = .ok (result entry)) :
    entries.mapM compute = .ok (entries.map result) := by
  induction entries with
  | nil => rfl
  | cons first rest ih =>
    have later := ih fun entry member => succeeds entry (List.mem_cons_of_mem _ member)
    rw [List.mapM_cons, succeeds first List.mem_cons_self, later]
    rfl

theorem flatten_map_ite {α : Type} (keep : α → Bool) (entries : List α) :
    (entries.map fun entry => if keep entry then [entry] else []).flatten
      = entries.filter keep := by
  induction entries with
  | nil => rfl
  | cons first rest ih =>
    rw [List.map_cons, List.flatten_cons, ih, List.filter_cons]
    split <;> rfl

end StateSpace

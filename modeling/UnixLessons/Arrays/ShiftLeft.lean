import Mathlib.Data.List.Basic
import Mathlib.Data.Nat.Notation

/-!
# Deleting from an array by shifting

The loop `for (j = i; j < i + k; j++) cells[j] = cells[j + 1]` and what it
leaves: the entries in use without the one at `i`.
-/

namespace UnixLessons.Arrays

variable {β : Type*} {n : ℕ}

/-- The shifting loop with `k` rounds to go; `none` when a cell outside the
array is read. -/
def shiftLeft (cells : Vector β n) (i : ℕ) : ℕ → Option (Vector β n)
  | 0 => some cells
  | k + 1 =>
    match cells[i + 1]? with
    | some x => shiftLeft (cells.setIfInBounds i x) (i + 1) k
    | none => none

/-- The loop stays inside the array and moves the cells behind `i` by one. -/
theorem shiftLeft_spec (cells : Vector β n) {i k : ℕ} (h : i + k < n) :
    ∃ out, shiftLeft cells i k = some out ∧
      ∀ j, out[j]? = if i ≤ j ∧ j < i + k then cells[j + 1]? else cells[j]? := by
  induction k generalizing cells i with
  | zero => exact ⟨cells, rfl, fun j => by rw [if_neg (by omega)]⟩
  | succ k ih =>
    have hread : cells[i + 1]? = some cells[i + 1] := Vector.getElem?_eq_getElem (by omega)
    obtain ⟨out, hout, hall⟩ := ih (cells.setIfInBounds i cells[i + 1]) (i := i + 1) (by omega)
    refine ⟨out, by rw [shiftLeft, hread]; exact hout, fun j => ?_⟩
    rw [hall j]
    by_cases hij : j = i
    · subst hij
      rw [if_neg (by omega), if_pos (by omega), hread,
        Vector.getElem?_setIfInBounds, if_pos rfl, if_pos (by omega)]
    · by_cases hin : i + 1 ≤ j ∧ j < i + 1 + k
      · rw [if_pos hin, if_pos (by omega), Vector.getElem?_setIfInBounds_ne (by omega)]
      · rw [if_neg hin, if_neg (by omega), Vector.getElem?_setIfInBounds_ne (by omega)]

/-- Of `i + k + 1` entries the shift leaves all but the one at `i`. -/
theorem take_shiftLeft (cells : Vector β n) {i k : ℕ} (h : i + k < n) :
    ∃ out, shiftLeft cells i k = some out ∧
      out.toList.take (i + k) = (cells.toList.take (i + k + 1)).eraseIdx i := by
  obtain ⟨out, hout, hall⟩ := shiftLeft_spec cells h
  refine ⟨out, hout, List.ext_getElem? fun j => ?_⟩
  have hj := hall j
  rw [← Vector.getElem?_toList, ← Vector.getElem?_toList, ← Vector.getElem?_toList] at hj
  rw [List.getElem?_take, List.getElem?_eraseIdx, List.getElem?_take, List.getElem?_take, hj]
  split_ifs <;> first | rfl | omega

end UnixLessons.Arrays

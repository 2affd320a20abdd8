import Mathlib.Data.Nat.ModEq
import Mathlib.Logic.Function.Basic

/-!
# A queue in a ring of cells

A queue of at most `n` elements in the cells `0 … n - 1`, used round and round:
the first element is at `front`, the next free cell is `length` cells behind it.
Writing the free cell does not show in the queue until the queue is made longer.

## Main results

* `Ring.write`: the free cell can be written at any time
* `Ring.push`, `Ring.pop`: the two ends
-/

namespace UnixLessons.Arrays

variable {α : Type*} {cell : ℕ → α} {n front : ℕ} {x : α} {xs : List α}

/-- The cells from `front` on hold the queue `xs`. -/
structure Ring (cell : ℕ → α) (n front : ℕ) (xs : List α) : Prop where
  front_lt : front < n
  length_le : xs.length ≤ n
  holds : ∀ j x, xs[j]? = some x → cell ((front + j) % n) = x

namespace Ring

theorem nil (h : front < n) : Ring cell n front [] := ⟨h, Nat.zero_le _, by simp⟩

/-- Two offsets below the size that reach the same cell are equal. -/
private theorem offset_inj {i j : ℕ} (hi : i < n) (hj : j < n)
    (h : (front + i) % n = (front + j) % n) : i = j :=
  Nat.ModEq.eq_of_lt_of_lt (Nat.ModEq.add_left_cancel' front h) hi hj

/-- The free cell can be written without the queue noticing. -/
theorem write (h : Ring cell n front xs) (hroom : xs.length < n) (x : α) :
    Ring (Function.update cell ((front + xs.length) % n) x) n front xs where
  front_lt := h.front_lt
  length_le := h.length_le
  holds j y hj := by
    obtain ⟨hlt, -⟩ := List.getElem?_eq_some_iff.mp hj
    have hne : (front + j) % n ≠ (front + xs.length) % n := fun heq =>
      hlt.ne (offset_inj (hlt.trans hroom) hroom heq)
    rw [Function.update_of_ne hne]
    exact h.holds j y hj

/-- What is in the free cell becomes the last element. -/
theorem push (h : Ring cell n front xs) (hroom : xs.length < n)
    (hx : cell ((front + xs.length) % n) = x) : Ring cell n front (xs ++ [x]) where
  front_lt := h.front_lt
  length_le := by
    rw [List.length_append, List.length_singleton]
    exact hroom
  holds j y hj := by
    rcases Nat.lt_trichotomy j xs.length with hlt | rfl | hgt
    · rw [List.getElem?_append_left hlt] at hj
      exact h.holds j y hj
    · rw [List.getElem?_append_right le_rfl, Nat.sub_self] at hj
      exact hx.trans (Option.some.inj hj)
    · rw [List.getElem?_eq_none (by rw [List.length_append, List.length_singleton]; omega)] at hj
      cases hj

/-- The first element is at the front. -/
theorem head (h : Ring cell n front (x :: xs)) : cell front = x := by
  have hcell := h.holds 0 x rfl
  rwa [Nat.add_zero, Nat.mod_eq_of_lt h.front_lt] at hcell

/-- Moving the front on takes the first element out. -/
theorem pop (h : Ring cell n front (x :: xs)) : Ring cell n ((front + 1) % n) xs where
  front_lt := Nat.mod_lt _ (Nat.zero_lt_of_lt h.front_lt)
  length_le := (Nat.le_succ _).trans h.length_le
  holds j y hj := by
    rw [Nat.mod_add_mod, Nat.add_right_comm, Nat.add_assoc]
    exact h.holds (j + 1) y hj

end Ring

end UnixLessons.Arrays

import Mathlib.Algebra.BigOperators.Group.List.Basic
import Mathlib.Data.Nat.ModEq

/-!
# One's complement sums

In one's complement addition a carry out of the top digit is added at the bottom. A sum of
words below `B` can be made in this way word by word, or the plain sum is made first and
its carries are folded in afterwards. Both give the residue of the plain sum modulo
`B - 1`, where a positive sum has a residue from `1` to `B - 1`.

## Main results

* `onesSum_eq_residue`: word by word
* `residue_foldCarry`: folding in the carries keeps the residue
* `residue_eq_pred_iff`: when all digits of the sum are ones
-/

namespace UnixLessons.Checksum

/-- The sum of two numbers below `B`, with end-around carry. -/
def endAround (B a b : ℕ) : ℕ := if a + b < B then a + b else a + b - B + 1

/-- The one's complement sum. -/
def onesSum (B : ℕ) (xs : List ℕ) : ℕ := xs.foldl (endAround B) 0

/-- The residue modulo `B - 1`, from `1` to `B - 1` for a positive number. -/
def residue (B n : ℕ) : ℕ := if n = 0 then 0 else (n - 1) % (B - 1) + 1

/-- The part of a number above the base is added to the part below it. -/
def foldCarry (B n : ℕ) : ℕ := n % B + n / B

variable {B a b n : ℕ} {xs : List ℕ}

theorem residue_zero : residue B 0 = 0 := rfl

theorem residue_lt (hB : 1 < B) (n : ℕ) : residue B n < B := by
  unfold residue
  split
  · omega
  · have := Nat.mod_lt (n - 1) (Nat.sub_pos_of_lt hB)
    omega

theorem residue_of_lt (h : n < B) : residue B n = n := by
  unfold residue
  split
  · exact Eq.symm ‹_›
  · rw [Nat.mod_eq_of_lt (by omega)]
    omega

/-- Positive numbers have the same residue if they differ by a multiple of `B - 1`. -/
theorem residue_add_mul (hn : n ≠ 0) (k : ℕ) : residue B (n + k * (B - 1)) = residue B n := by
  have hcomm : n + k * (B - 1) - 1 = n - 1 + k * (B - 1) := by omega
  rw [residue, residue, if_neg hn, if_neg (by omega), hcomm, Nat.add_mul_mod_self_right]

theorem exists_residue (B n : ℕ) : ∃ k, n = residue B n + k * (B - 1) := by
  by_cases hn : n = 0
  · exact ⟨0, by simp [hn, residue_zero]⟩
  · refine ⟨(n - 1) / (B - 1), ?_⟩
    have hdiv := Nat.mod_add_div (n - 1) (B - 1)
    rw [Nat.mul_comm (B - 1)] at hdiv
    rw [residue, if_neg hn]
    omega

theorem residue_pos (hn : n ≠ 0) : residue B n ≠ 0 := by
  rw [residue, if_neg hn]
  exact Nat.succ_ne_zero _

/-- Adding a word to a residue. -/
theorem endAround_residue (hB : 1 < B) (hb : b < B) (n : ℕ) :
    endAround B (residue B n) b = residue B (n + b) := by
  obtain ⟨k, hk⟩ := exists_residue B n
  have hlt := residue_lt hB n
  by_cases hzero : residue B n + b = 0
  · have hn : n = 0 := by
      by_contra hn
      have := residue_pos (B := B) hn
      omega
    subst hn
    obtain rfl : b = 0 := by omega
    rw [endAround, residue_zero, if_pos (by omega)]
  · have hsum : residue B (n + b) = residue B (residue B n + b) := by
      rw [← residue_add_mul hzero k]
      congr 1
      omega
    rw [hsum]
    generalize residue B n = r at hlt hzero ⊢
    rw [endAround]
    split
    · rw [residue_of_lt ‹_›]
    · -- one carry, which the smaller sum does not have again
      have hcarry : r + b = r + b - B + 1 + 1 * (B - 1) := by omega
      have hshift := residue_add_mul (B := B) (n := r + b - B + 1) (by omega) 1
      rw [← hcarry, residue_of_lt (by omega : r + b - B + 1 < B)] at hshift
      exact hshift.symm

theorem foldl_endAround (hB : 1 < B) (hxs : ∀ x ∈ xs, x < B) (n : ℕ) :
    xs.foldl (endAround B) (residue B n) = residue B (n + xs.sum) := by
  induction xs generalizing n with
  | nil => rfl
  | cons x xs ih =>
    rw [List.foldl_cons, endAround_residue hB (hxs x List.mem_cons_self),
      ih (fun y hy => hxs y (List.mem_cons_of_mem x hy)), List.sum_cons, add_assoc]

/-- The one's complement sum is the residue of the plain one. -/
theorem onesSum_eq_residue (hB : 1 < B) (hxs : ∀ x ∈ xs, x < B) :
    onesSum B xs = residue B xs.sum := by
  have hfold := foldl_endAround hB hxs 0
  rwa [residue_zero, Nat.zero_add] at hfold

theorem foldCarry_eq_zero_iff : foldCarry B n = 0 ↔ n = 0 := by
  constructor
  · intro h
    rw [foldCarry, Nat.add_eq_zero_iff] at h
    rw [← Nat.mod_add_div n B, h.1, h.2]
    rfl
  · rintro rfl
    simp [foldCarry]

theorem residue_foldCarry (hB : 1 < B) (n : ℕ) : residue B (foldCarry B n) = residue B n := by
  by_cases hn : n = 0
  · rw [foldCarry_eq_zero_iff.mpr hn, hn]
  · have hne : foldCarry B n ≠ 0 := mt foldCarry_eq_zero_iff.mp hn
    -- what was counted as `B` for each carry is now counted as one
    have hsplit : n = foldCarry B n + n / B * (B - 1) := by
      have hdiv := Nat.mod_add_div n B
      have hmul : n / B * (B - 1) + n / B = B * (n / B) := by
        rw [Nat.mul_comm B, ← Nat.mul_succ, Nat.succ_eq_add_one, Nat.sub_add_cancel hB.le]
      rw [foldCarry]
      omega
    conv_rhs => rw [hsplit, residue_add_mul hne]

theorem foldCarry_lt (hB : 1 < B) (h : B ≤ n) : foldCarry B n < n := by
  have hdiv := Nat.mod_add_div n B
  have hpos := Nat.div_pos h (by omega)
  have hmul : 2 * (n / B) ≤ B * (n / B) := Nat.mul_le_mul_right _ hB
  rw [foldCarry]
  omega

/-- A single carry is folded in without a new one. -/
theorem add_div_mod (h : n < 2 * B - 1) : (n + n / B) % B = residue B n := by
  by_cases hlt : n < B
  · rw [Nat.div_eq_of_lt hlt, Nat.add_zero, Nat.mod_eq_of_lt hlt, residue_of_lt hlt]
  · have hone : n / B = 1 := by
      refine Nat.div_eq_of_lt_le ?_ ?_ <;> omega
    have hshift := residue_add_mul (B := B) (n := n - B + 1) (by omega) 1
    rw [residue_of_lt (by omega : n - B + 1 < B)] at hshift
    have hn : n - B + 1 + 1 * (B - 1) = n := by omega
    rw [hn] at hshift
    rw [hone, hshift, Nat.mod_eq_sub_mod (by omega), Nat.mod_eq_of_lt (by omega)]
    omega

/-- All digits of the sum are ones for the positive multiples of `B - 1`. -/
theorem residue_eq_pred_iff (hB : 1 < B) : residue B n = B - 1 ↔ n ≠ 0 ∧ B - 1 ∣ n := by
  constructor
  · intro h
    have hn : n ≠ 0 := by
      rintro rfl
      rw [residue_zero] at h
      omega
    obtain ⟨k, hk⟩ := exists_residue B n
    rw [h] at hk
    refine ⟨hn, ?_⟩
    -- `n` is `k + 1` times `B - 1`
    rw [hk]
    exact Nat.dvd_add (Nat.dvd_refl _) (Nat.dvd_mul_left _ _)
  · rintro ⟨hn, k, rfl⟩
    obtain ⟨k, rfl⟩ := Nat.exists_eq_succ_of_ne_zero (right_ne_zero_of_mul hn)
    have hcomm : (B - 1) * (k + 1) = B - 1 + k * (B - 1) := by
      rw [Nat.mul_succ, Nat.mul_comm, Nat.add_comm]
    rw [Nat.succ_eq_add_one, hcomm, residue_add_mul (by omega), residue_of_lt (by omega)]

end UnixLessons.Checksum

import UnixLessons.Text.CString

/-!
# Decimal integers in text

What `%d` prints. `decimal_injective` tells numbers apart by their texts,
`length_decimal_le` bounds the text by the size of the number.
-/

namespace UnixLessons.Text

/-- The text `%d` and `%ld` print. -/
def decimal (i : ℤ) : CString :=
  if i < 0 then '-' :: Nat.toDigits 10 i.natAbs else Nat.toDigits 10 i.natAbs

theorem isDigit_of_mem_toDigits {n : ℕ} {c : Char} (h : c ∈ Nat.toDigits 10 n) :
    c.isDigit = true :=
  Nat.isDigit_of_mem_toDigits (by decide) (by decide) h

/-- No digit follows. -/
def DigitFree (rest : CString) : Prop := ∀ c ∈ rest.head?, c.isDigit = false

theorem digitFree_nil : DigitFree [] := by simp [DigitFree]

theorem toDigits_injective {m n : ℕ} (h : Nat.toDigits 10 m = Nat.toDigits 10 n) : m = n := by
  rw [← @Nat.ofDigitChars_ten_toDigits m, h, Nat.ofDigitChars_ten_toDigits]

theorem notMem_toDigits {n : ℕ} {c : Char} (h : c.isDigit = false) : c ∉ Nat.toDigits 10 n :=
  fun hmem => by simp [isDigit_of_mem_toDigits hmem] at h

/-- Different numbers are printed differently. -/
theorem decimal_injective : Function.Injective decimal := by
  have hsign : ∀ m n : ℕ, '-' :: Nat.toDigits 10 m ≠ Nat.toDigits 10 n := fun m n h =>
    notMem_toDigits (c := '-') (by decide) (h ▸ List.mem_cons_self)
  intro i j h
  unfold decimal at h
  split_ifs at h
  · have habs := toDigits_injective (List.cons.inj h).2
    omega
  · exact absurd h (hsign _ _)
  · exact absurd h.symm (hsign _ _)
  · have habs := toDigits_injective h
    omega

theorem nul_notMem_decimal (i : ℤ) : nul ∉ decimal i := by
  have hdigits : nul ∉ Nat.toDigits 10 i.natAbs := notMem_toDigits (by decide)
  unfold decimal
  split
  · simpa [nul] using hdigits
  · exact hdigits

theorem length_decimal_le {i : ℤ} {k : ℕ} (hk : 0 < k) (h : i.natAbs < 10 ^ k) :
    (decimal i).length ≤ k + 1 := by
  have := (Nat.length_toDigits_le_iff (by decide) hk).mpr h
  unfold decimal
  split
  · simp only [List.length_cons]; omega
  · omega

end UnixLessons.Text

import Mathlib.Tactic.Ring
import UnixLessons.Text.Scanf

/-!
# The bits of a number

`bits.c` prints the number it has read in binary, `bits3.c` also counts the ones, and
`bits4.c` puts another value into the third byte.

## Main results

* `bits3_prints`: what is printed is the numeral of the number, and the count is right
* `bits4_keeps_iff`: when the other bytes stay what they are
-/

namespace UnixLessons.Bits

open Text

/-- `(number >> i) & 1`. -/
def bitAt (number : BitVec 32) (i : ℕ) : BitVec 32 := number.sshiftRight i &&& 1#32

/-- What the loop prints from `i - 1` down to 0, with a space after each four digits. -/
def printBits (number : BitVec 32) : ℕ → CString
  | 0 => []
  | i + 1 => decimal (bitAt number i).toInt ++ (if i % 4 = 0 ∧ i ≠ 0 then [' '] else []) ++
      printBits number i

/-- The second loop of `bits3.c`, from `i - 1` down to 0. -/
def countBits (number : BitVec 32) : ℕ → ℕ → ℕ
  | 0, count => count
  -- the test is `(number >> i) & (1 == 1)`
  | i + 1, count => countBits number i (if bitAt number i ≠ 0 then count + 1 else count)

/-- The variable after `scanf`, which leaves it alone without a number. -/
def scanned (old : BitVec 32) (stdin : Stdin) : BitVec 32 :=
  match (scanNumber stdin).1 with
  | some i => .ofInt 32 i
  | none => old

/-- `main` of `bits.c`. -/
def bits (stdin : Stdin) : CString := printBits (scanned 0 stdin) 32

/-- `main` of `bits3.c`, which counts in a positive number only. -/
def bits3 (stdin : Stdin) : CString × Option ℕ :=
  let number := scanned 0 stdin
  (printBits number 32, if 0 < number.toInt then some (countBits number 32 0) else none)

/-- `(number & ~(0xFF << 16)) | (new_byte << 16)`. -/
def replaceByte (number newByte : BitVec 32) : BitVec 32 :=
  (number &&& ~~~(0xFF#32 <<< 16)) ||| (newByte <<< 16)

/-- `main` of `bits4.c`, which does not check that the new value is a byte. -/
def bits4 (old oldByte : BitVec 32) (stdin : Stdin) : Option (BitVec 32) :=
  let number := scanned old stdin
  if number.toInt < 0 then none
  else some (replaceByte number (scanned oldByte (scanNumber stdin).2))

variable {x y : BitVec 32} {i k : ℕ} {n : ℤ} {rest : Stdin}

/-! ### Digits -/

def digit (b : Bool) : Char := if b then '1' else '0'

theorem bitAt_eq (x : BitVec 32) (hi : i < 32) :
    bitAt x i = if x.getLsbD i then 1#32 else 0#32 := by
  ext k hk
  simp only [bitAt, BitVec.getElem_and, BitVec.getElem_sshiftRight, BitVec.getElem_one]
  -- the mask leaves the lowest bit
  by_cases hzero : k = 0
  · subst hzero
    rw [BitVec.getLsbD_eq_getElem hi]
    cases hbit : x[i] <;> simp [hbit, hi]
  · cases hbit : x.getLsbD i <;> simp [hzero]

theorem decimal_bitAt (x : BitVec 32) (hi : i < 32) :
    decimal (bitAt x i).toInt = [digit (x.getLsbD i)] := by
  rw [bitAt_eq x hi]
  cases x.getLsbD i <;> decide

theorem printBits_succ (x : BitVec 32) (hi : i < 32) :
    printBits x (i + 1) =
      digit (x.getLsbD i) :: ((if i % 4 = 0 ∧ i ≠ 0 then [' '] else []) ++ printBits x i) := by
  rw [printBits, decimal_bitAt x hi]
  rfl

/-- The digits without the spaces are a binary numeral. -/
theorem ofDigitChars_printBits (x : BitVec 32) (hk : k ≤ 32) (init : ℕ) :
    Nat.ofDigitChars 2 ((printBits x k).filter (· ≠ ' ')) init =
      2 ^ k * init + x.toNat % 2 ^ k := by
  induction k generalizing init with
  | zero => simp [printBits, Nat.mod_one]
  | succ k ih =>
    have hspaces : ((if k % 4 = 0 ∧ k ≠ 0 then [' '] else []) : CString).filter (· ≠ ' ') = [] := by
      split_ifs <;> rfl
    have hdigit : digit (x.getLsbD k) ≠ ' ' := by cases x.getLsbD k <;> decide
    have hvalue : (digit (x.getLsbD k)).toNat - '0'.toNat = (x.toNat.testBit k).toNat := by
      rw [BitVec.testBit_toNat]
      cases x.getLsbD k <;> rfl
    rw [printBits_succ x (by omega), List.filter_cons_of_pos (by simpa using hdigit),
      List.filter_append, hspaces, List.nil_append, Nat.ofDigitChars_cons, ih (by omega), hvalue,
      Nat.toNat_testBit, Nat.mod_pow_succ]
    ring

theorem countBits_eq (x : BitVec 32) (hk : k ≤ 32) (count : ℕ) :
    countBits x k count = count + (printBits x k).count '1' := by
  induction k generalizing count with
  | zero => rfl
  | succ k ih =>
    have hspaces : ((if k % 4 = 0 ∧ k ≠ 0 then [' '] else []) : CString).count '1' = 0 := by
      split_ifs <;> rfl
    rw [countBits, ih (by omega), bitAt_eq x (by omega), printBits_succ x (by omega),
      List.count_cons, List.count_append, hspaces]
    cases x.getLsbD k with
    | false => simp [digit]
    | true =>
      simp only [digit, if_true, beq_self_eq_true]
      rw [if_pos (by decide)]
      omega

/-! ### Groups of four digits -/

def quad (x : BitVec 32) (g : ℕ) : CString :=
  [digit (x.getLsbD (4 * g + 3)), digit (x.getLsbD (4 * g + 2)), digit (x.getLsbD (4 * g + 1)),
    digit (x.getLsbD (4 * g))]

def groups (x : BitVec 32) : ℕ → List CString
  | 0 => []
  | g + 1 => quad x g :: groups x g

theorem length_groups (x : BitVec 32) (g : ℕ) : (groups x g).length = g := by
  induction g with
  | zero => rfl
  | succ g ih => rw [groups, List.length_cons, ih]

theorem mem_groups {w : CString} (hw : w ∈ groups x k) :
    w.length = 4 ∧ ∀ c ∈ w, c = '0' ∨ c = '1' := by
  induction k with
  | zero => cases hw
  | succ k ih =>
    rcases List.mem_cons.mp hw with rfl | hw
    · have hdigit : ∀ b, digit b = '0' ∨ digit b = '1' := by decide
      refine ⟨rfl, fun c hc => ?_⟩
      simp only [quad, List.mem_cons, List.not_mem_nil, or_false] at hc
      rcases hc with rfl | rfl | rfl | rfl <;> exact hdigit _
    · exact ih hw

theorem printBits_quad (x : BitVec 32) (hk : k < 8) :
    printBits x (4 * (k + 1)) = quad x k ++ if k = 0 then [] else ' ' :: printBits x (4 * k) := by
  -- only the last of the four digits stands where a space follows
  have hlast : 4 * (k + 1) = 4 * k + 3 + 1 := by omega
  have hmod : ∀ r, (4 * k + r) % 4 = r % 4 := fun r => Nat.mul_add_mod _ _ _
  rw [hlast, printBits_succ x (by omega), printBits_succ x (by omega), printBits_succ x (by omega),
    printBits_succ x (by omega)]
  simp only [hmod, Nat.mul_mod_right]
  by_cases hzero : k = 0
  · subst hzero
    rfl
  · simp [hzero, quad]

theorem printBits_groups (x : BitVec 32) (hk : k ≤ 8) :
    printBits x (4 * k) = [' '].intercalate (groups x k) := by
  induction k with
  | zero => rfl
  | succ k ih =>
    rw [printBits_quad x (by omega), ih (by omega), groups]
    cases k with
    | zero => simp [groups, List.intercalate]
    | succ k => simp [groups, List.intercalate]

/-! ### The programs -/

theorem scanned_line (hlower : -2 ^ 31 ≤ n) (hupper : n < 2 ^ 31) (old : BitVec 32)
    (rest : Stdin) : scanned old (decimal n ++ '\n' :: rest) = .ofInt 32 n := by
  rw [scanned, scanNumber_line hlower hupper]

/-- For every number that is typed, both programs print its 32 binary digits, negative numbers
modulo 2 ^ 32, in eight groups of four, and of a positive one the second program tells how many
of the digits are ones. -/
theorem bits3_prints (hlower : -2 ^ 31 ≤ n) (hupper : n < 2 ^ 31) (rest : Stdin) :
    ∃ groups : List CString,
      bits (decimal n ++ '\n' :: rest) = [' '].intercalate groups ∧ groups.length = 8 ∧
      (∀ w ∈ groups, w.length = 4 ∧ ∀ c ∈ w, c = '0' ∨ c = '1') ∧
      (Nat.ofDigitChars 2 ((bits (decimal n ++ '\n' :: rest)).filter (· ≠ ' ')) 0 : ℤ) =
        n % 2 ^ 32 ∧
      bits3 (decimal n ++ '\n' :: rest) = (bits (decimal n ++ '\n' :: rest),
        if 0 < n then some ((bits (decimal n ++ '\n' :: rest)).count '1') else none) := by
  have hsign : (BitVec.ofInt 32 n).toInt = n := BitVec.toInt_ofInt_eq_self (by decide) hlower hupper
  rw [bits, bits3, scanned_line hlower hupper, hsign, countBits_eq _ (Nat.le_refl _), Nat.zero_add]
  refine ⟨groups (.ofInt 32 n) 8, printBits_groups _ (Nat.le_refl _), length_groups _ _,
    fun w hw => mem_groups hw, ?_, rfl⟩
  rw [ofDigitChars_printBits _ (Nat.le_refl _), Nat.mul_zero, Nat.zero_add, BitVec.toNat_ofInt]
  omega

theorem bits3_prints_five :
    bits3 "5\n".toList = ("0000 0000 0000 0000 0000 0000 0000 0101".toList, some 2) ∧
      (Nat.ofDigitChars 2 ((bits "5\n".toList).filter (· ≠ ' ')) 0 : ℤ) = 5 := by
  have htext : decimal 5 ++ '\n' :: [] = "5\n".toList := by decide
  have hbits : bits "5\n".toList = "0000 0000 0000 0000 0000 0000 0000 0101".toList := by decide
  obtain ⟨_, -, -, -, hvalue, hboth⟩ := @bits3_prints 5 (by decide) (by decide) []
  rw [htext] at hvalue hboth
  refine ⟨?_, hvalue⟩
  rw [hboth, hbits]
  decide

/-- The bits of the new number. -/
theorem getLsbD_replaceByte (x y : BitVec 32) (hk : k < 32) :
    (replaceByte x y).getLsbD k =
      if k < 16 then x.getLsbD k
      else if k < 24 then y.getLsbD (k - 16)
      else (x.getLsbD k || y.getLsbD (k - 16)) := by
  have hmask : ∀ k < 32, (0xFF#32 <<< 16).getLsbD k = decide (16 ≤ k ∧ k < 24) := by decide
  rw [replaceByte, BitVec.getLsbD_or, BitVec.getLsbD_and, BitVec.getLsbD_not, hmask k hk,
    BitVec.getLsbD_shiftLeft]
  by_cases hlow : k < 16
  · simp [hk, hlow]
  · by_cases hhigh : k < 24
    · simp [hk, hlow, hhigh, Nat.le_of_not_lt hlow]
    · simp [hk, hlow, hhigh]

/-- For every number that is not negative and every new value, the third byte becomes the
lowest byte of the value. The other bytes stay exactly if no bit above it, of those that the
shift leaves, is new to the number. -/
theorem bits4_keeps_iff {value : ℤ} (hn : 0 ≤ n) (hupper : n < 2 ^ 31)
    (hvalue : -2 ^ 31 ≤ value) (hvalue' : value < 2 ^ 31) (old oldByte : BitVec 32)
    (rest : Stdin) :
    ∃ r, bits4 old oldByte (decimal n ++ '\n' :: (decimal value ++ '\n' :: rest)) = some r ∧
      (∀ k < 8, r.getLsbD (16 + k) = (BitVec.ofInt 32 value).getLsbD k) ∧
      ((∀ k < 32, k < 16 ∨ 24 ≤ k → r.getLsbD k = (BitVec.ofInt 32 n).getLsbD k) ↔
        ∀ k, 8 ≤ k → k < 16 → (BitVec.ofInt 32 value).getLsbD k = true →
          (BitVec.ofInt 32 n).getLsbD (16 + k) = true) := by
  have hlower : -2 ^ 31 ≤ n := by omega
  have hsign : (BitVec.ofInt 32 n).toInt = n := BitVec.toInt_ofInt_eq_self (by decide) hlower hupper
  have hbyte : scanned oldByte ('\n' :: (decimal value ++ '\n' :: rest)) = .ofInt 32 value := by
    rw [scanned, scanNumber_congr (skipSpace_newline _), scanNumber_line hvalue hvalue']
  refine ⟨replaceByte (.ofInt 32 n) (.ofInt 32 value), ?_, fun k hk => ?_, ?_, ?_⟩
  · simp only [bits4, scanned_line hlower hupper, hsign, scanNumber_line hlower hupper, hbyte]
    exact if_neg (by omega)
  · rw [getLsbD_replaceByte _ _ (by omega), if_neg (by omega), if_pos (by omega),
      Nat.add_sub_cancel_left]
  · -- bit `k` of the value comes to the place `16 + k`
    intro hkeeps k hlow hhigh hbit
    have hsame := hkeeps (16 + k) (by omega) (.inr (by omega))
    rw [getLsbD_replaceByte _ _ (by omega), if_neg (by omega), if_neg (by omega),
      Nat.add_sub_cancel_left, hbit, Bool.or_true] at hsame
    exact hsame.symm
  · intro hnew k hk hplace
    rw [getLsbD_replaceByte _ _ hk]
    rcases hplace with hlow | hhigh
    · rw [if_pos hlow]
    · obtain ⟨j, rfl⟩ := Nat.exists_eq_add_of_le (show 16 ≤ k by omega)
      rw [if_neg (by omega), if_neg (by omega), Nat.add_sub_cancel_left]
      have himp := hnew j (by omega) (by omega)
      cases hbit : (BitVec.ofInt 32 value).getLsbD j with
      | false => rw [Bool.or_false]
      | true => rw [Bool.or_true, himp hbit]

/-- 427 is 0x1AB: its ninth bit gets into the fourth byte of 0x12345678. -/
theorem bits4_keeps_iff_spills :
    ∃ r, bits4 0 0 "305419896\n427\n".toList = some r ∧ r = 0x13AB5678#32 ∧
      ¬ ∀ k < 32, k < 16 ∨ 24 ≤ k → r.getLsbD k = (BitVec.ofInt 32 305419896).getLsbD k := by
  have htext : decimal 305419896 ++ '\n' :: (decimal 427 ++ '\n' :: []) =
      "305419896\n427\n".toList := by decide
  obtain ⟨r, hr, -, hiff⟩ :=
    @bits4_keeps_iff 305419896 427 (by decide) (by decide) (by decide) (by decide) 0 0 []
  rw [htext] at hr
  have hsome : bits4 0 0 "305419896\n427\n".toList = some 0x13AB5678#32 := by decide
  refine ⟨r, hr, Option.some.inj (hr.symm.trans hsome), fun hkeeps => ?_⟩
  exact absurd (hiff.mp hkeeps 8 (by decide) (by decide) (by decide)) (by decide)

end UnixLessons.Bits

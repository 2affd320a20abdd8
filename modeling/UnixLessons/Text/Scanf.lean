import Mathlib.Data.List.DropRight
import UnixLessons.Text.Decimal

/-!
# Reading from standard input

`scanf` with `%s`, `%9s` and `%d`, and `getchar`, as functions of the characters that are
still to be read. A conversion that fails stores nothing; what it has looked at by then is
gone: the white space in front, and the sign of a number without digits.
-/

namespace UnixLessons.Text

/-- The characters that are left of the standard input. -/
abbrev Stdin := List Char

/-- `isspace`. -/
def isSpace (c : Char) : Bool := c == ' ' || decide ('\t' ≤ c ∧ c ≤ '\r')

def skipSpace (stdin : Stdin) : Stdin := stdin.dropWhile isSpace

/-- `scanf("%s", …)`: the next word; none at the end of the input. -/
def scanWord (stdin : Stdin) : Option CString × Stdin :=
  match skipSpace stdin with
  | [] => (none, [])
  | text => (some (text.takeWhile (!isSpace ·)), text.dropWhile (!isSpace ·))

/-- `scanf` with a width: the rest of a longer word is left. -/
def scanField (width : ℕ) (stdin : Stdin) : Option CString × Stdin :=
  match scanWord stdin with
  | (none, rest) => (none, rest)
  | (some word, rest) => (some (word.take width), word.drop width ++ rest)

/-- A number as it is stored in an `int`, by way of a `long` that saturates. -/
def storedInt (n : ℤ) : ℤ := (max (-2 ^ 63) (min n (2 ^ 63 - 1))).bmod (2 ^ 32)

/-- The digits at the head of the text as a number with this sign. -/
def scanDigits (sign : ℤ) (text : Stdin) : Option ℤ × Stdin :=
  match text.takeWhile Char.isDigit with
  | [] => (none, text)
  -- a long number saturates before it is cut to an `int`
  | digits =>
    (some (storedInt (sign * Nat.ofDigitChars 10 digits 0)), text.dropWhile Char.isDigit)

/-- `scanf("%d", …)`. -/
def scanNumber (stdin : Stdin) : Option ℤ × Stdin :=
  match skipSpace stdin with
  | '-' :: text => scanDigits (-1) text
  | '+' :: text => scanDigits 1 text
  | text => scanDigits 1 text

/-- Lines in front of the rest of the input. -/
def textLines (lines : List CString) (rest : Stdin) : Stdin :=
  lines.foldr (fun line rest => line ++ '\n' :: rest) rest

/-- The input after `getchar`. -/
def getchar (stdin : Stdin) : Stdin := stdin.tail

/-- A word as `%s` reads it. -/
structure IsWord (w : CString) : Prop where
  ne_nil : w ≠ []
  isSpace : ∀ c ∈ w, isSpace c = false

instance : DecidablePred IsWord := fun w =>
  decidable_of_iff (w ≠ [] ∧ w.all (!Text.isSpace ·) = true)
    ⟨fun ⟨hne, hall⟩ => ⟨hne, by simpa using hall⟩, fun h => ⟨h.ne_nil, by simpa using h.isSpace⟩⟩

variable {stdin text rest : Stdin} {w x blanks : CString} {width : ℕ}

/-! ### Words -/

theorem skipSpace_append (hblanks : ∀ c ∈ blanks, isSpace c = true)
    (hrest : ∀ c ∈ rest.head?, isSpace c = false) : skipSpace (blanks ++ rest) = rest := by
  rw [skipSpace, List.dropWhile_append_of_pos hblanks]
  cases rest with
  | nil => rfl
  | cons c rest => exact List.dropWhile_cons_of_neg (by simp [hrest c rfl])

theorem skipSpace_of_head (h : ∀ c ∈ stdin.head?, isSpace c = false) : skipSpace stdin = stdin :=
  @skipSpace_append stdin [] (by simp) h

theorem scanWord_congr (h : skipSpace stdin = skipSpace text) : scanWord stdin = scanWord text := by
  rw [scanWord, scanWord, h]

/-- A word is read up to the white space behind it. -/
theorem scanWord_append (hblanks : ∀ c ∈ blanks, isSpace c = true) (hw : IsWord w)
    (hrest : ∀ c ∈ rest.head?, isSpace c = true) :
    scanWord (blanks ++ (w ++ rest)) = (some w, rest) := by
  have hnotSpace : ∀ c ∈ w, (!isSpace c) = true := fun c hc => by rw [hw.isSpace c hc]; rfl
  obtain ⟨c, v, rfl⟩ := List.exists_cons_of_ne_nil hw.ne_nil
  have hskip : skipSpace (blanks ++ (c :: v ++ rest)) = c :: v ++ rest := by
    apply skipSpace_append hblanks
    intro d hd
    obtain rfl : c = d := Option.some.inj hd
    exact hw.isSpace c List.mem_cons_self
  have htake : (c :: v ++ rest).takeWhile (!isSpace ·) = c :: v := by
    cases rest with
    | nil => rw [List.append_nil, List.takeWhile_eq_self_iff.mpr hnotSpace]
    | cons d rest =>
      rw [List.takeWhile_append_of_pos hnotSpace,
        List.takeWhile_cons_of_neg (by simp [hrest d rfl]), List.append_nil]
  have hdrop : (c :: v ++ rest).dropWhile (!isSpace ·) = rest := by
    rw [List.dropWhile_append_of_pos hnotSpace]
    cases rest with
    | nil => rfl
    | cons d rest => exact List.dropWhile_cons_of_neg (by simp [hrest d rfl])
  rw [scanWord, hskip]
  change (some ((c :: v ++ rest).takeWhile (!isSpace ·)),
    (c :: v ++ rest).dropWhile (!isSpace ·)) = _
  rw [htake, hdrop]

/-- The input is blank, or it starts with a word behind some white space. -/
theorem exists_scanWord (stdin : Stdin) :
    (∀ c ∈ stdin, isSpace c = true) ∧ scanWord stdin = (none, []) ∨
    ∃ blanks w rest, stdin = blanks ++ (w ++ rest) ∧ (∀ c ∈ blanks, isSpace c = true) ∧
      IsWord w ∧ (∀ c ∈ rest.head?, isSpace c = true) ∧ scanWord stdin = (some w, rest) := by
  cases htext : skipSpace stdin with
  | nil =>
    refine .inl ⟨fun c hc => ?_, ?_⟩
    · exact List.dropWhile_eq_nil_iff.mp htext c hc
    · rw [scanWord, htext]
  | cons c text =>
    have hc : isSpace c = false := by
      have hstop := List.head?_dropWhile_not isSpace stdin
      rw [skipSpace] at htext
      rw [htext] at hstop
      simpa using hstop
    have hw : IsWord ((c :: text).takeWhile (!isSpace ·)) := by
      refine ⟨by simp [hc], fun d hd => ?_⟩
      simpa using List.mem_takeWhile_imp hd
    have hrest : ∀ d ∈ ((c :: text).dropWhile (!isSpace ·)).head?, isSpace d = true := by
      intro d hd
      have hstop := List.head?_dropWhile_not (!isSpace ·) (c :: text)
      rw [hd] at hstop
      simpa using hstop
    have hblanks : ∀ d ∈ stdin.takeWhile isSpace, isSpace d = true :=
      fun d hd => List.mem_takeWhile_imp hd
    have hsplit : stdin = stdin.takeWhile isSpace ++ ((c :: text).takeWhile (!isSpace ·) ++
        (c :: text).dropWhile (!isSpace ·)) := by
      rw [List.takeWhile_append_dropWhile, ← htext, skipSpace, List.takeWhile_append_dropWhile]
    refine .inr ⟨_, _, _, hsplit, hblanks, hw, hrest, ?_⟩
    rw [hsplit]
    exact scanWord_append hblanks hw hrest

theorem isWord_of_scanWord (h : (scanWord stdin).1 = some w) : IsWord w := by
  rcases exists_scanWord stdin with ⟨-, hscan⟩ | ⟨_, v, _, -, -, hv, -, hscan⟩
  · rw [hscan] at h
    cases h
  · rw [hscan] at h
    obtain rfl : v = w := Option.some.inj h
    exact hv

theorem skipSpace_newline (stdin : Stdin) : skipSpace ('\n' :: stdin) = skipSpace stdin :=
  List.dropWhile_cons_of_pos (by decide)

/-- There is something other than white space. -/
def HasWord (x : CString) : Prop := ∃ c ∈ x, isSpace c = false

namespace IsWord

theorem hasWord (h : IsWord w) : HasWord w := by
  obtain ⟨c, hc⟩ := List.exists_mem_of_ne_nil w h.ne_nil
  exact ⟨c, hc, h.isSpace c hc⟩

theorem skipSpace_append (h : IsWord w) (rest : Stdin) : skipSpace (w ++ rest) = w ++ rest := by
  apply skipSpace_of_head
  obtain ⟨c, v, rfl⟩ := List.exists_cons_of_ne_nil h.ne_nil
  intro d hd
  obtain rfl : c = d := Option.some.inj hd
  exact h.isSpace c List.mem_cons_self

/-- A word on a line. -/
theorem scanWord_line (h : IsWord w) (rest : Stdin) :
    scanWord (w ++ '\n' :: rest) = (some w, '\n' :: rest) := by
  refine @scanWord_append ('\n' :: rest) w [] (by simp) h fun c hc => ?_
  obtain rfl : '\n' = c := Option.some.inj hc
  decide

end IsWord

namespace HasWord

theorem append_left (h : HasWord x) (y : CString) : HasWord (y ++ x) := by
  obtain ⟨c, hc, hspace⟩ := h
  exact ⟨c, List.mem_append_right y hc, hspace⟩

/-- White space is skipped up to a word, and so nothing behind it. -/
theorem lt_length_skipSpace (h : HasWord x) (rest : Stdin) :
    rest.length < (skipSpace (x ++ rest)).length := by
  obtain ⟨c, hc, hspace⟩ := h
  have hne : x.dropWhile Text.isSpace ≠ [] := by
    intro hnil
    have hall := List.dropWhile_eq_nil_iff.mp hnil c hc
    rw [hspace] at hall
    cases hall
  have hpos := List.length_pos_of_ne_nil hne
  rw [skipSpace, List.dropWhile_append, if_neg (by simpa using hne), List.length_append]
  omega

end HasWord

/-! ### Lengths -/

theorem length_skipSpace_le (stdin : Stdin) : (skipSpace stdin).length ≤ stdin.length :=
  List.length_dropWhile_le _ _

theorem length_scanWord_le (stdin : Stdin) : (scanWord stdin).2.length ≤ stdin.length := by
  rcases exists_scanWord stdin with ⟨-, hscan⟩ | ⟨blanks, w, rest, rfl, -, -, -, hscan⟩
  · rw [hscan]
    exact Nat.zero_le _
  · simp only [hscan, List.length_append]
    omega

theorem length_scanWord_lt (h : HasWord stdin) : (scanWord stdin).2.length < stdin.length := by
  rcases exists_scanWord stdin with ⟨hblank, -⟩ | ⟨blanks, w, rest, rfl, -, hw, -, hscan⟩
  · obtain ⟨c, hc, hspace⟩ := h
    rw [hblank c hc] at hspace
    cases hspace
  · have hpos := List.length_pos_of_ne_nil hw.ne_nil
    simp only [hscan, List.length_append]
    omega

/-- Without a word nothing is left. -/
theorem scanWord_of_not_hasWord (h : ¬ HasWord stdin) : scanWord stdin = (none, []) := by
  rcases exists_scanWord stdin with ⟨-, hscan⟩ | ⟨blanks, w, rest, rfl, -, hw, -, -⟩
  · exact hscan
  · obtain ⟨c, hc, hspace⟩ := hw.hasWord
    exact absurd ⟨c, List.mem_append_right _ (List.mem_append_left _ hc), hspace⟩ h

theorem length_scanField_le (width : ℕ) (stdin : Stdin) :
    (scanField width stdin).2.length ≤ stdin.length := by
  rcases exists_scanWord stdin with ⟨-, hscan⟩ | ⟨blanks, w, rest, rfl, -, -, -, hscan⟩
  · rw [scanField, hscan]
    exact Nat.zero_le _
  · rw [scanField, hscan]
    simp only [List.length_append, List.length_drop]
    omega

/-! ### Numbers -/

/-- The first character that is not white space belongs to a number, as far as `scanf` can
tell: it is a digit or a sign. -/
def NumberNext (stdin : Stdin) : Prop :=
  ∃ c ∈ (skipSpace stdin).head?, c.isDigit = true ∨ c = '-' ∨ c = '+'

theorem length_scanDigits_le (sign : ℤ) (text : Stdin) :
    (scanDigits sign text).2.length ≤ text.length := by
  rw [scanDigits]
  split
  · exact le_rfl
  · exact List.length_dropWhile_le _ _

/-- A number takes its first digit or its sign, even if nothing follows the sign. -/
theorem length_scanNumber_lt (h : NumberNext stdin) :
    (scanNumber stdin).2.length < stdin.length := by
  obtain ⟨c, hc, hnumber⟩ := h
  have hle := length_skipSpace_le stdin
  obtain ⟨text, htext⟩ : ∃ text, skipSpace stdin = c :: text := by
    cases hskip : skipSpace stdin with
    | nil => rw [hskip] at hc; cases hc
    | cons d text => rw [hskip] at hc; exact ⟨text, congrArg (· :: text) (Option.some.inj hc)⟩
  rw [htext, List.length_cons] at hle
  rw [scanNumber, htext]
  split
  · rename_i heq
    obtain ⟨-, rfl⟩ := List.cons.inj heq
    have hdigits := length_scanDigits_le (-1) text
    omega
  · rename_i heq
    obtain ⟨-, rfl⟩ := List.cons.inj heq
    have hdigits := length_scanDigits_le 1 text
    omega
  · rename_i hminus hplus
    have hdigit : c.isDigit = true := by
      rcases hnumber with hdigit | rfl | rfl
      · exact hdigit
      · exact absurd rfl (hminus text)
      · exact absurd rfl (hplus text)
    have hdrop := List.length_dropWhile_le (p := Char.isDigit) text
    rw [scanDigits, List.takeWhile_cons_of_pos hdigit]
    change (List.dropWhile Char.isDigit (c :: text)).length < stdin.length
    rw [List.dropWhile_cons_of_pos hdigit]
    omega

/-- Otherwise nothing but white space is taken. -/
theorem scanNumber_of_not (h : ¬ NumberNext stdin) :
    scanNumber stdin = (none, skipSpace stdin) := by
  cases htext : skipSpace stdin with
  | nil => rw [scanNumber, htext]; rfl
  | cons c text =>
    rw [NumberNext, htext] at h
    have hc : ¬ (c.isDigit = true ∨ c = '-' ∨ c = '+') := fun hnumber => h ⟨c, rfl, hnumber⟩
    rw [not_or, not_or] at hc
    obtain ⟨hdigit, hminus, hplus⟩ := hc
    rw [scanNumber, htext]
    split
    · rename_i heq
      exact absurd (List.cons.inj heq).1 hminus
    · rename_i heq
      exact absurd (List.cons.inj heq).1 hplus
    · rw [scanDigits, List.takeWhile_cons_of_neg hdigit]

theorem length_scanNumber_le (stdin : Stdin) : (scanNumber stdin).2.length ≤ stdin.length := by
  by_cases h : NumberNext stdin
  · exact (length_scanNumber_lt h).le
  · rw [scanNumber_of_not h]
    exact length_skipSpace_le stdin

/-! ### Numerals

A numeral is read up to the first character that is not a digit, and nothing else is read as
a number. -/

theorem storedInt_eq_self {i : ℤ} (hlower : -2 ^ 31 ≤ i) (hupper : i < 2 ^ 31) :
    storedInt i = i := by
  have hmin : min i (2 ^ 63 - 1) = i := min_eq_left (by omega)
  have hmax : max (-2 ^ 63) i = i := max_eq_right (by omega)
  rw [storedInt, hmin, hmax]
  exact Int.bmod_eq_of_le (by omega) (by omega)

/-- A non-empty run of digits. -/
structure IsDigits (digits : CString) : Prop where
  ne_nil : digits ≠ []
  isDigit : ∀ c ∈ digits, c.isDigit = true

/-- Digits behind an optional sign and white space, with the number that is stored. -/
inductive Numeral : CString → ℤ → Prop
  | unsigned {digits : CString} (h : IsDigits digits) :
      Numeral digits (storedInt (1 * Nat.ofDigitChars 10 digits 0))
  | plus {digits : CString} (h : IsDigits digits) :
      Numeral ('+' :: digits) (storedInt (1 * Nat.ofDigitChars 10 digits 0))
  | minus {digits : CString} (h : IsDigits digits) :
      Numeral ('-' :: digits) (storedInt (-1 * Nat.ofDigitChars 10 digits 0))
  | blank {c : Char} {x : CString} {n : ℤ} (hc : isSpace c = true) (h : Numeral x n) :
      Numeral (c :: x) n

theorem digit_facts {c : Char} (h : c.isDigit = true) : isSpace c = false ∧ c ≠ '-' ∧ c ≠ '+' := by
  have hlower : 48 ≤ c.val := by
    rw [Char.isDigit, Bool.and_eq_true, decide_eq_true_eq, decide_eq_true_eq] at h
    exact h.1
  refine ⟨?_, ?_, ?_⟩
  · rw [isSpace, Bool.or_eq_false_iff, beq_eq_false_iff_ne, decide_eq_false_iff_not]
    refine ⟨?_, fun hspace => ?_⟩
    · rintro rfl
      exact absurd hlower (by decide)
    · have hupper : c.val ≤ 13 := hspace.2
      exact absurd (UInt32.le_trans hlower hupper) (by decide)
  all_goals
    rintro rfl
    exact absurd hlower (by decide)

theorem scanDigits_eq_some_iff {sign n : ℤ} : scanDigits sign text = (some n, rest) ↔
    ∃ digits, text = digits ++ rest ∧ IsDigits digits ∧ DigitFree rest ∧
      n = storedInt (sign * Nat.ofDigitChars 10 digits 0) := by
  constructor
  · intro h
    rw [scanDigits] at h
    split at h
    · cases h
    · rename_i hne
      obtain ⟨hn, rfl⟩ := Prod.mk.inj h
      refine ⟨_, List.takeWhile_append_dropWhile.symm, ⟨hne, fun c hc => ?_⟩, fun c hc => ?_,
        (Option.some.inj hn).symm⟩
      · exact List.mem_takeWhile_imp hc
      · have hstop := List.head?_dropWhile_not Char.isDigit text
        rw [hc] at hstop
        simpa using hstop
  · rintro ⟨digits, rfl, hdigits, hrest, rfl⟩
    have htake : (digits ++ rest).takeWhile Char.isDigit = digits := by
      rw [List.takeWhile_append_of_pos hdigits.isDigit]
      cases rest with
      | nil => exact List.append_nil _
      | cons c rest =>
        rw [List.takeWhile_cons_of_neg (by simp [hrest c rfl]), List.append_nil]
    have hdrop : (digits ++ rest).dropWhile Char.isDigit = rest := by
      rw [List.dropWhile_append_of_pos hdigits.isDigit]
      cases rest with
      | nil => rfl
      | cons c rest => exact List.dropWhile_cons_of_neg (by simp [hrest c rfl])
    rw [scanDigits, htake, hdrop]
    obtain ⟨c, digits, rfl⟩ := List.exists_cons_of_ne_nil hdigits.ne_nil
    rfl

theorem scanNumber_space {c : Char} (hc : isSpace c = true) (text : Stdin) :
    scanNumber (c :: text) = scanNumber text := by
  rw [scanNumber, skipSpace, List.dropWhile_cons_of_pos hc, ← skipSpace, ← scanNumber]

theorem scanNumber_congr (h : skipSpace stdin = skipSpace text) :
    scanNumber stdin = scanNumber text := by
  rw [scanNumber, scanNumber, h]

theorem scanNumber_digit {c : Char} (hc : c.isDigit = true) (text : Stdin) :
    scanNumber (c :: text) = scanDigits 1 (c :: text) := by
  obtain ⟨hspace, hminus, hplus⟩ := digit_facts hc
  rw [scanNumber, skipSpace, List.dropWhile_cons_of_neg (by simp [hspace])]
  split
  · rename_i heq
    exact absurd (List.cons.inj heq).1 hminus
  · rename_i heq
    exact absurd (List.cons.inj heq).1 hplus
  · rfl

theorem Numeral.scanNumber {n : ℤ} (h : Numeral x n) (hrest : DigitFree rest) :
    scanNumber (x ++ rest) = (some n, rest) := by
  induction h with
  | @unsigned digits h =>
    obtain ⟨c, digits, rfl⟩ := List.exists_cons_of_ne_nil h.ne_nil
    rw [List.cons_append, scanNumber_digit (h.isDigit c List.mem_cons_self)]
    exact scanDigits_eq_some_iff.mpr ⟨_, rfl, h, hrest, rfl⟩
  | @plus digits h =>
    have hskip : skipSpace ('+' :: (digits ++ rest)) = '+' :: (digits ++ rest) :=
      List.dropWhile_cons_of_neg (by decide)
    rw [List.cons_append, Text.scanNumber, hskip]
    exact scanDigits_eq_some_iff.mpr ⟨_, rfl, h, hrest, rfl⟩
  | @minus digits h =>
    have hskip : skipSpace ('-' :: (digits ++ rest)) = '-' :: (digits ++ rest) :=
      List.dropWhile_cons_of_neg (by decide)
    rw [List.cons_append, Text.scanNumber, hskip]
    exact scanDigits_eq_some_iff.mpr ⟨_, rfl, h, hrest, rfl⟩
  | blank hc h ih => rw [List.cons_append, scanNumber_space hc, ih]

/-- Exactly a numeral is read as a number. -/
theorem scanNumber_eq_some_iff {n : ℤ} : scanNumber text = (some n, rest) ↔
    ∃ x, text = x ++ rest ∧ Numeral x n ∧ DigitFree rest := by
  constructor
  · intro h
    induction text with
    | nil => cases h
    | cons c text ih =>
      cases hc : isSpace c with
      | true =>
        rw [scanNumber_space hc] at h
        obtain ⟨x, rfl, hx, hrest⟩ := ih h
        exact ⟨c :: x, rfl, .blank hc hx, hrest⟩
      | false =>
        rw [scanNumber, skipSpace, List.dropWhile_cons_of_neg (by simp [hc])] at h
        split at h
        · rename_i heq
          obtain ⟨rfl, rfl⟩ := List.cons.inj heq
          obtain ⟨digits, rfl, hdigits, hrest, rfl⟩ := scanDigits_eq_some_iff.mp h
          exact ⟨_, rfl, .minus hdigits, hrest⟩
        · rename_i heq
          obtain ⟨rfl, rfl⟩ := List.cons.inj heq
          obtain ⟨digits, rfl, hdigits, hrest, rfl⟩ := scanDigits_eq_some_iff.mp h
          exact ⟨_, rfl, .plus hdigits, hrest⟩
        · obtain ⟨digits, heq, hdigits, hrest, rfl⟩ := scanDigits_eq_some_iff.mp h
          exact ⟨digits, heq, .unsigned hdigits, hrest⟩
  · rintro ⟨x, rfl, hx, hrest⟩
    exact hx.scanNumber hrest

/-- What `%d` prints is a numeral. -/
theorem numeral_decimal {i : ℤ} (hlower : -2 ^ 31 ≤ i) (hupper : i < 2 ^ 31) :
    Numeral (decimal i) i := by
  have hdigits : IsDigits (Nat.toDigits 10 i.natAbs) :=
    ⟨Nat.toDigits_ne_nil, fun _ => isDigit_of_mem_toDigits⟩
  have hvalue : Nat.ofDigitChars 10 (Nat.toDigits 10 i.natAbs) 0 = i.natAbs :=
    Nat.ofDigitChars_ten_toDigits
  have hself := storedInt_eq_self hlower hupper
  rw [decimal]
  split
  · have hi : -1 * ((i.natAbs : ℕ) : ℤ) = i := by omega
    have hminus := Numeral.minus hdigits
    rwa [hvalue, hi, hself] at hminus
  · have hi : 1 * ((i.natAbs : ℕ) : ℤ) = i := by omega
    have hunsigned := Numeral.unsigned hdigits
    rwa [hvalue, hi, hself] at hunsigned

/-- A number on a line. -/
theorem scanNumber_line {i : ℤ} (hlower : -2 ^ 31 ≤ i) (hupper : i < 2 ^ 31) (rest : Stdin) :
    scanNumber (decimal i ++ '\n' :: rest) = (some i, '\n' :: rest) := by
  apply (numeral_decimal hlower hupper).scanNumber
  intro c hc
  obtain rfl : '\n' = c := Option.some.inj hc
  rfl

theorem skipSpace_skipSpace (stdin : Stdin) : skipSpace (skipSpace stdin) = skipSpace stdin := by
  rw [skipSpace, skipSpace, List.dropWhile_idempotent]

theorem numberNext_skipSpace : NumberNext (skipSpace stdin) ↔ NumberNext stdin := by
  rw [NumberNext, NumberNext, skipSpace_skipSpace]

theorem hasWord_iff : HasWord stdin ↔ skipSpace stdin ≠ [] := by
  rw [skipSpace, Ne, List.dropWhile_eq_nil_iff, HasWord]
  simp

theorem hasWord_skipSpace : HasWord (skipSpace stdin) ↔ HasWord stdin := by
  rw [hasWord_iff, hasWord_iff, skipSpace_skipSpace]

end UnixLessons.Text

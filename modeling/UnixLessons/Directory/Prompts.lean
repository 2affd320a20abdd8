import UnixLessons.Directory.Refinement
import UnixLessons.Text.Scanf

/-!
# The prompts of the directory

A prompt reads a word with a width that fits its array, and then one character, which is
meant to be the end of the line. Of a word that is longer than the width by more than one
character, the rest is left for what is read next.

## Main results

* `storesTyped_iff`: for which words one prompt takes one line
-/

namespace UnixLessons.Directory

open Text

/-- An array that was filled with a string, as far as it has room. -/
def filled (size : ℕ) [NeZero size] (s : CString) : CharArray size where
  text := cstr (s.take (size - 1))
  nul_notMem := nul_notMem_cstr _
  length_lt := by
    have hcstr := length_cstr_le (s.take (size - 1))
    have htake := List.length_take_le (size - 1) s
    have hsize := NeZero.ne size
    omega

/-- `scanf` with a width into an array, and `getchar`. At the end of the input the array
keeps what it holds. -/
def prompt {size : ℕ} [NeZero size] (width : ℕ) (old : CharArray size) (stdin : Stdin) :
    CharArray size × Stdin :=
  match scanField width stdin with
  | (none, rest) => (old, getchar rest)
  | (some word, rest) => (filled size word, getchar rest)

/-- `add_abonent`: its three arrays are `old` before they are read. -/
def addFrom (s : Abonents) (memory : Option ℕ) (old : Abonent) (stdin : Stdin) :
    Option (Abonents × Stdin) :=
  let (name, stdin) := prompt 9 old.name stdin
  let (secondName, stdin) := prompt 9 old.secondName stdin
  let (tel, stdin) := prompt 11 old.tel stdin
  (addAbonent s memory name secondName tel).map (·, stdin)

variable {stdin rest t : Stdin} {w w₁ w₂ w₃ x : CString} {width : ℕ}

/-! ### One prompt -/

/-- What a prompt leaves. -/
def left (width : ℕ) (stdin : Stdin) : Stdin := getchar (scanField width stdin).2

theorem prompt_left {size : ℕ} [NeZero size] (width : ℕ) (old : CharArray size) (stdin : Stdin) :
    (prompt width old stdin).2 = left width stdin := by
  rw [prompt, left]
  split <;> rename_i hscan <;> rw [hscan]

theorem scanField_line (hw : IsWord w) (h : skipSpace stdin = w ++ '\n' :: t) :
    scanField width stdin = (some (w.take width), w.drop width ++ '\n' :: t) := by
  rw [scanField, scanWord_congr (h.trans (hw.skipSpace_append _).symm), hw.scanWord_line]

/-- A word that is longer than the width by one character still takes its line. -/
theorem left_of_length_le (hw : IsWord w) (hlength : w.length ≤ width + 1)
    (h : skipSpace stdin = w ++ '\n' :: t) : skipSpace (left width stdin) = skipSpace t := by
  rw [left, scanField_line hw h]
  rcases Nat.lt_or_eq_of_le hlength with hlt | heq
  · rw [List.drop_of_length_le (by omega)]
    rfl
  · obtain ⟨c, hc⟩ := List.length_eq_one_iff.mp (show (w.drop width).length = 1 by simp; omega)
    rw [hc]
    exact skipSpace_newline t

theorem left_of_lt_length (hw : IsWord w) (hlength : width + 1 < w.length)
    (h : skipSpace stdin = w ++ '\n' :: t) :
    ∃ x, left width stdin = x ++ '\n' :: t ∧ HasWord x := by
  have hrest : (w.drop width).tail = w.drop (width + 1) := List.tail_drop
  have hne : w.drop width ≠ [] := by
    rw [Ne, List.drop_eq_nil_iff]
    omega
  obtain ⟨c, hc⟩ : ∃ c, c ∈ w.drop (width + 1) :=
    List.exists_mem_of_length_pos (by rw [List.length_drop]; omega)
  refine ⟨w.drop (width + 1), ?_, c, hc, hw.isSpace c (List.mem_of_mem_drop hc)⟩
  rw [left, scanField_line hw h, getchar, List.tail_append_of_ne_nil hne, hrest]

/-- A word on a line ends before the line does. -/
theorem exists_rest {blanks : CString} (hx : HasWord x) (hblanks : ∀ c ∈ blanks, isSpace c = true)
    (hw : IsWord w) (h : x ++ '\n' :: t = blanks ++ (w ++ rest)) : ∃ y, rest = y ++ '\n' :: t := by
  rw [← List.append_assoc] at h
  rcases List.append_eq_append_iff.mp h with ⟨y, hword, hrest⟩ | ⟨y, -, hrest⟩
  · cases y with
    | nil => exact ⟨[], hrest.symm⟩
    | cons c y =>
      -- otherwise the newline is part of the word or of the white space in front of it
      obtain rfl : '\n' = c := (List.cons.inj hrest).1
      rcases List.append_eq_append_iff.mp hword with ⟨z, -, hnewline⟩ | ⟨z, hfront, -⟩
      · have hspace := hw.isSpace '\n' (hnewline ▸ List.mem_append_right z List.mem_cons_self)
        exact absurd hspace (by decide)
      · obtain ⟨c, hc, hspace⟩ := hx
        rw [hblanks c (hfront ▸ List.mem_append_left z hc)] at hspace
        cases hspace
  · exact ⟨y, hrest⟩

/-- A prompt takes no more than the rest of a line. -/
theorem exists_left (hx : HasWord x) : ∃ u, left width (x ++ '\n' :: t) = u ++ t := by
  rcases exists_scanWord (x ++ '\n' :: t) with
    ⟨hblank, -⟩ | ⟨blanks, w, rest, hstdin, hblanks, hw, -, hscan⟩
  · obtain ⟨c, hc, hspace⟩ := hx
    rw [hblank c (List.mem_append_left _ hc)] at hspace
    cases hspace
  · obtain ⟨y, rfl⟩ := exists_rest hx hblanks hw hstdin
    rw [left, scanField, hscan]
    change ∃ u, (w.drop width ++ (y ++ '\n' :: t)).tail = u ++ t
    rw [← List.append_assoc]
    cases w.drop width ++ y with
    | nil => exact ⟨[], rfl⟩
    | cons c u => exact ⟨u ++ ['\n'], by simp⟩

/-! ### Three prompts -/

/-- Three words on three lines. -/
def typed (w₁ w₂ w₃ : CString) (rest : Stdin) : Stdin :=
  w₁ ++ '\n' :: (w₂ ++ '\n' :: (w₃ ++ '\n' :: rest))

/-- What the prompts of `add_abonent` leave. -/
def leftByAdd (stdin : Stdin) : Stdin := left 11 (left 9 (left 9 stdin))

/-- The three lines are taken, up to white space, exactly if no word is longer than the
width by more than one character. -/
theorem leftByAdd_iff (h₁ : IsWord w₁) (h₂ : IsWord w₂) (h₃ : IsWord w₃) :
    skipSpace (leftByAdd (typed w₁ w₂ w₃ rest)) = skipSpace rest ↔
      w₁.length ≤ 10 ∧ w₂.length ≤ 10 ∧ w₃.length ≤ 12 := by
  -- of a longer word something is left in front of the next line, here or in a later prompt
  have hspill : ∀ {stdin}, (∃ x, stdin = x ++ '\n' :: rest ∧ HasWord x) →
      skipSpace stdin ≠ skipSpace rest := by
    rintro stdin ⟨x, rfl, hx⟩ heq
    have hlt := hx.lt_length_skipSpace ('\n' :: rest)
    have hle := length_skipSpace_le rest
    rw [heq, List.length_cons] at hlt
    omega
  have hlate : ∀ {x}, HasWord x → ∃ y, left 11 (x ++ '\n' :: (w₃ ++ '\n' :: rest)) =
      y ++ '\n' :: rest ∧ HasWord y := by
    intro x hx
    obtain ⟨u, hu⟩ := exists_left hx
    exact ⟨u ++ w₃, by rw [hu, List.append_assoc], h₃.hasWord.append_left u⟩
  have hfirst := h₁.skipSpace_append ('\n' :: (w₂ ++ '\n' :: (w₃ ++ '\n' :: rest)))
  by_cases hlong₁ : w₁.length ≤ 10
  · have hline₂ := (left_of_length_le h₁ hlong₁ hfirst).trans (h₂.skipSpace_append _)
    by_cases hlong₂ : w₂.length ≤ 10
    · have hline₃ := (left_of_length_le h₂ hlong₂ hline₂).trans (h₃.skipSpace_append _)
      by_cases hlong₃ : w₃.length ≤ 12
      · exact iff_of_true (left_of_length_le h₃ hlong₃ hline₃) ⟨hlong₁, hlong₂, hlong₃⟩
      · have hleft := left_of_lt_length h₃ (not_le.mp hlong₃) hline₃
        exact iff_of_false (hspill hleft) fun h => hlong₃ h.2.2
    · obtain ⟨x, hx, hword⟩ := left_of_lt_length h₂ (not_le.mp hlong₂) hline₂
      have hleft := hlate hword
      rw [← hx] at hleft
      exact iff_of_false (hspill hleft) fun h => hlong₂ h.2.1
  · obtain ⟨x, hx, hword⟩ := left_of_lt_length h₁ (not_le.mp hlong₁) hfirst
    obtain ⟨u, hu⟩ := exists_left hword
    have hleft := hlate (h₂.hasWord.append_left u)
    rw [List.append_assoc, ← hu, ← hx] at hleft
    exact iff_of_false (hspill hleft) fun h => hlong₁ h.1

/-! ### The stored record -/

/-- `add_abonent` with the memory `new` puts the first characters of the words into its
record, and the next menu choice is read from the line behind them. -/
def StoresTyped (s : Abonents) (l : Listing) (new : ℕ) (old : Abonent) (w₁ w₂ w₃ : CString)
    (rest : Stdin) : Prop :=
  ∃ s' record stdin, addFrom s (some new) old (typed w₁ w₂ w₃ rest) = some (s', stdin) ∧
    Represents s' ⟨l.nodes ++ [(new, record)], l.out ++ [.added (l.nodes.length + 1)]⟩ ∧
    record.name.text = w₁.take 9 ∧ record.secondName.text = w₂.take 9 ∧
    record.tel.text = w₃.take 11 ∧ skipSpace stdin = skipSpace rest

theorem addFrom_eq (s : Abonents) (memory : Option ℕ) (old : Abonent) (stdin : Stdin) :
    addFrom s memory old stdin =
      (addAbonent s memory (prompt 9 old.name stdin).1 (prompt 9 old.secondName (left 9 stdin)).1
        (prompt 11 old.tel (left 9 (left 9 stdin))).1).map (·, leftByAdd stdin) := by
  simp only [addFrom, prompt_left, leftByAdd]

/-- The array holds as much of the word as the width lets in. -/
theorem prompt_text {size : ℕ} [NeZero size] {old : CharArray size} (hw : IsWord w)
    (hwidth : width ≤ size - 1) (hnul : nul ∉ w.take width) (h : skipSpace stdin = w ++ '\n' :: t) :
    (prompt width old stdin).1.text = w.take width := by
  rw [prompt, scanField_line hw h]
  change cstr ((w.take width).take (size - 1)) = w.take width
  rw [List.take_take, min_eq_right hwidth, cstr_of_notMem hnul]

theorem StoresTyped.next_line {s : Abonents} {l : Listing} {new : ℕ} {old : Abonent}
    (h : StoresTyped s l new old w₁ w₂ w₃ rest) :
    skipSpace (leftByAdd (typed w₁ w₂ w₃ rest)) = skipSpace rest := by
  obtain ⟨s', record, stdin, hadd, -, -, -, -, hnext⟩ := h
  rw [addFrom_eq, Option.map_eq_some_iff] at hadd
  obtain ⟨t, -, heq⟩ := hadd
  obtain ⟨-, rfl⟩ := Prod.mk.inj heq
  exact hnext

/-- Whatever is in the directory and in the arrays, for all words and whatever follows. -/
theorem storesTyped_iff {s : Abonents} {l : Listing} {new : ℕ} (h : Represents s l)
    (hnew : new ∉ s.heap) (h₁ : IsWord w₁) (h₂ : IsWord w₂) (h₃ : IsWord w₃) (old : Abonent)
    (rest : Stdin) : StoresTyped s l new old w₁ w₂ w₃ rest ↔
      (w₁.length ≤ 10 ∧ w₂.length ≤ 10 ∧ w₃.length ≤ 12) ∧
      nul ∉ w₁.take 9 ∧ nul ∉ w₂.take 9 ∧ nul ∉ w₃.take 11 := by
  rw [← leftByAdd_iff h₁ h₂ h₃]
  constructor
  · intro hstores
    refine ⟨hstores.next_line, ?_⟩
    obtain ⟨s', record, stdin, -, -, hname, hsecond, htel, -⟩ := hstores
    exact ⟨hname ▸ record.name.nul_notMem, hsecond ▸ record.secondName.nul_notMem,
      htel ▸ record.tel.nul_notMem⟩
  · rintro ⟨hnext, hnul₁, hnul₂, hnul₃⟩
    obtain ⟨hlength₁, hlength₂, -⟩ := (leftByAdd_iff h₁ h₂ h₃).mp hnext
    have hline₁ := h₁.skipSpace_append ('\n' :: (w₂ ++ '\n' :: (w₃ ++ '\n' :: rest)))
    have hline₂ := (left_of_length_le h₁ hlength₁ hline₁).trans (h₂.skipSpace_append _)
    have hline₃ := (left_of_length_le h₂ hlength₂ hline₂).trans (h₃.skipSpace_append _)
    obtain ⟨s', hadd, hholds⟩ := addAbonent_represents h hnew
    refine ⟨s', _, _, by rw [addFrom_eq, hadd, Option.map_some], hholds, ?_, ?_, ?_, hnext⟩
    · exact prompt_text h₁ (by decide) hnul₁ hline₁
    · exact prompt_text h₂ (by decide) hnul₂ hline₂
    · exact prompt_text h₃ (by decide) hnul₃ hline₃

/-- Arrays that hold nothing. -/
def blank : Abonent := ⟨filled _ [], filled _ [], filled _ []⟩

theorem storesTyped_iff_anna : StoresTyped .init .empty 1 blank "Anna".toList "Lee".toList
    "123".toList "4\n".toList :=
  (storesTyped_iff .init (by decide) (by decide) (by decide) (by decide) blank
    "4\n".toList).mpr (by decide)

/-- Of a name with eleven characters the last one becomes the second name. -/
theorem not_storesTyped_konstantina : ¬ StoresTyped .init .empty 1 blank "Konstantina".toList
    "Lee".toList "123".toList "4\n".toList := by
  intro h
  have hlengths := (leftByAdd_iff (by decide) (by decide) (by decide)).mp h.next_line
  exact absurd hlengths.1 (by decide)

end UnixLessons.Directory

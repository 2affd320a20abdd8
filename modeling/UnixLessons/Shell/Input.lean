import UnixLessons.Text.Lines

/-!
# What the shells run

Both shells read their standard input with `fgets`, strip the newline and run what
is left as a command. A line that does not fit the buffer is read in pieces, and each
piece is run as a command of its own.

This file is about the text alone: `shellLoop` is what becomes of a standard input that
nobody but the shell reads.

## Main results

* `myBash_eq_commandLines_iff`: the inputs are the lines exactly if the lines fit
-/

namespace UnixLessons.Shell

open Text

/-- Size of the buffer for a line. -/
def maxInputSize : ℕ := 1024

/-- What ends a shell. -/
def exitInput : CString := "exit".toList

theorem exitInput_ne_nil : exitInput ≠ [] := by decide

variable {β : Type*} {stdin line rest text : CString}

/-- The loop of both shells: what `command` makes of each input, up to the end of the
text or to `exit`. -/
def shellLoop (command : CString → β) (stdin : CString) : List β :=
  match _h : fgets maxInputSize stdin with
  | none => []
  | some (line, rest) =>
    let input := removeNewline (cstr line)
    if input = [] then shellLoop command rest
    else if input = exitInput then []
    else command input :: shellLoop command rest
termination_by stdin.length
decreasing_by all_goals exact length_rest_lt (by decide : 1 < maxInputSize) ‹_›

/-- The place of the first occurrence of a character. -/
def strchr (s : CString) (c : Char) : Option ℕ := s.findIdx? (· = c)

/-- What the pipe shell does with an input. -/
inductive Dispatch where
  | simpleCommand (input : CString)
  | pipeCommand (input : CString) (pipePos : ℕ)
deriving DecidableEq

def Dispatch.input : Dispatch → CString
  | .simpleCommand input | .pipeCommand input _ => input

/-- What the loop does with an input. -/
def dispatch (input : CString) : Dispatch :=
  match strchr input '|' with
  | none => .simpleCommand input
  | some pipePos => .pipeCommand input pipePos

@[simp] theorem input_dispatch (input : CString) : (dispatch input).input = input := by
  rw [dispatch]
  split <;> rfl

/-- The shell with pipes. -/
def bushFix : CString → List Dispatch := shellLoop dispatch

/-- The shell without pipes runs each input as it is. -/
def myBash : CString → List CString := shellLoop fun input => input

/-! ### What is to be run -/

/-- The non-empty lines up to the first `exit`. -/
def commandLines (stdin : CString) : List CString :=
  ((stdin.splitOn '\n').takeWhile (· ≠ exitInput)).filter (· ≠ [])

/-! ### One round of the loop -/

theorem shellLoop_none {command : CString → β} (h : fgets maxInputSize stdin = none) :
    shellLoop command stdin = [] := by
  rw [shellLoop]
  split
  · rfl
  · rename_i heq
    rw [h] at heq
    cases heq

theorem shellLoop_some {command : CString → β}
    (h : fgets maxInputSize stdin = some (line, rest)) :
    shellLoop command stdin =
      if removeNewline (cstr line) = [] then shellLoop command rest
      else if removeNewline (cstr line) = exitInput then []
      else command (removeNewline (cstr line)) :: shellLoop command rest := by
  rw [shellLoop]
  split
  · rename_i heq
    rw [h] at heq
    cases heq
  · rename_i heq
    rw [h] at heq
    cases heq
    rfl

/-- The loops of the shells read the same inputs. -/
theorem map_shellLoop {γ : Type*} (command : CString → β) (f : β → γ) (stdin : CString) :
    (shellLoop command stdin).map f = shellLoop (f ∘ command) stdin := by
  induction hlength : stdin.length using Nat.strong_induction_on generalizing stdin with
  | h n ih =>
    cases hread : fgets maxInputSize stdin with
    | none => rw [shellLoop_none hread, shellLoop_none hread, List.map_nil]
    | some read =>
      obtain ⟨line, rest⟩ := read
      -- each read takes something off the input, which the induction is on
      have hlt : rest.length < n :=
        hlength ▸ length_rest_lt (by decide : 1 < maxInputSize) hread
      rw [shellLoop_some hread, shellLoop_some hread]
      split
      · exact ih _ hlt rest rfl
      split
      · rfl
      · rw [List.map_cons, ih _ hlt rest rfl]
        rfl

/-- Every input is the text of a line that `fgets` has read. -/
theorem exists_fgets_of_mem (hmem : text ∈ myBash stdin) :
    ∃ input line rest, fgets maxInputSize input = some (line, rest) ∧
      text = removeNewline (cstr line) := by
  unfold myBash at hmem
  induction hlength : stdin.length using Nat.strong_induction_on generalizing stdin with
  | h n ih =>
    cases hread : fgets maxInputSize stdin with
    | none => simp [shellLoop_none hread] at hmem
    | some read =>
      obtain ⟨line, rest⟩ := read
      have hlt : rest.length < n :=
        hlength ▸ length_rest_lt (by decide : 1 < maxInputSize) hread
      rw [shellLoop_some hread] at hmem
      split at hmem
      · exact ih _ hlt hmem rfl
      split at hmem
      · cases hmem
      · rcases List.mem_cons.mp hmem with rfl | hmem
        · exact ⟨stdin, line, rest, hread, rfl⟩
        · exact ih _ hlt hmem rfl

/-- No input is longer than the buffer. -/
theorem length_lt_of_mem (hmem : text ∈ myBash stdin) : text.length < maxInputSize := by
  obtain ⟨input, line, rest, hread, rfl⟩ := exists_fgets_of_mem hmem
  -- neither the terminator nor the newline makes the text longer
  exact lt_of_le_of_lt ((List.takeWhile_prefix _).length_le.trans (length_cstr_le line))
    (length_fgets_lt (by decide) hread)

/-! ### The lines one by one -/

theorem commandLines_line (hline : '\n' ∉ line) :
    commandLines (line ++ '\n' :: rest) =
      if line = [] then commandLines rest
      else if line = exitInput then []
      else line :: commandLines rest := by
  rw [commandLines, splitOn_line hline, List.takeWhile_cons]
  by_cases hempty : line = []
  · subst hempty
    rfl
  · by_cases hexit : line = exitInput
    · simp [hexit, exitInput_ne_nil]
    · simp [hempty, hexit, commandLines]

theorem commandLines_last (hline : '\n' ∉ line) :
    commandLines line = if line = [] ∨ line = exitInput then [] else [line] := by
  rw [commandLines, splitOn_of_notMem hline]
  by_cases hempty : line = []
  · simp [hempty, exitInput_ne_nil.symm]
  · by_cases hexit : line = exitInput
    · simp [hexit]
    · simp [hempty, hexit]

/-- The last line, without a newline. -/
theorem myBash_last (hnul : nul ∉ line) (hline : '\n' ∉ line)
    (hlength : line.length < maxInputSize) :
    myBash line = if line = [] ∨ line = exitInput then [] else [line] := by
  unfold myBash
  by_cases hempty : line = []
  · rw [shellLoop_none (fgets_eq_none.mpr hempty), if_pos (.inl hempty)]
  -- without a newline the line is read up to the end of the input
  · have hread : fgets maxInputSize line = some (line, []) := by
      rw [fgets, if_neg hempty, readLine_of_le hline (Nat.le_sub_one_of_lt hlength)]
    rw [shellLoop_some hread, cstr_of_notMem hnul, removeNewline_of_notMem hline, if_neg hempty,
      shellLoop_none (fgets_eq_none.mpr rfl)]
    simp [hempty]

/-- A line whose newline fits the buffer too. -/
theorem myBash_short (hnul : nul ∉ line) (hline : '\n' ∉ line)
    (hlength : line.length < maxInputSize - 1) :
    myBash (line ++ '\n' :: rest) =
      if line = [] then myBash rest
      else if line = exitInput then []
      else line :: myBash rest := by
  have hread : fgets maxInputSize (line ++ '\n' :: rest) = some (line ++ ['\n'], rest) := by
    rw [fgets, if_neg (by simp), readLine_of_lt hline hlength]
  have hclean : nul ∉ line ++ ['\n'] := by
    simp only [List.mem_append, List.mem_singleton, not_or]
    exact ⟨hnul, by decide⟩
  unfold myBash
  rw [shellLoop_some hread, cstr_of_notMem hclean, removeNewline_append hline]

/-- As much of a line as fills the buffer is run as it is, whatever follows. -/
theorem myBash_piece (hnul : nul ∉ line) (hline : '\n' ∉ line)
    (hlength : line.length = maxInputSize - 1) : myBash (line ++ rest) = line :: myBash rest := by
  have hempty : line ≠ [] := by
    rintro rfl
    cases hlength
  have hexit : line ≠ exitInput := by
    rintro rfl
    cases hlength
  have hread : fgets maxInputSize (line ++ rest) = some (line, rest) := by
    rw [fgets, if_neg (by simp [hempty]), ← hlength, readLine_of_eq hline]
  unfold myBash
  rw [shellLoop_some hread, cstr_of_notMem hnul, removeNewline_of_notMem hline, if_neg hempty,
    if_neg hexit]

/-- A line that fits the buffer, its newline apart. -/
theorem myBash_line (hnul : nul ∉ line) (hline : '\n' ∉ line)
    (hlength : line.length < maxInputSize) :
    myBash (line ++ '\n' :: rest) =
      if line = [] then myBash rest
      else if line = exitInput then []
      else line :: myBash rest := by
  rcases Nat.lt_or_eq_of_le (Nat.le_sub_one_of_lt hlength) with hshort | hfull
  · exact myBash_short hnul hline hshort
  -- The newline of a line that fills the buffer is skipped as an empty line.
  · have hskip : myBash ([] ++ '\n' :: rest) = myBash rest :=
      myBash_short (by simp) (by simp) (by decide)
    rw [myBash_piece hnul hline hfull, ← List.nil_append ('\n' :: rest), hskip, if_neg, if_neg]
    · rintro rfl
      cases hfull
    · rintro rfl
      cases hfull

/-! ### The main result -/

/-- Lines that fit the buffer are run one by one. -/
theorem myBash_eq_commandLines (hnul : nul ∉ stdin)
    (hfits : ∀ line ∈ commandLines stdin, line.length < maxInputSize) :
    myBash stdin = commandLines stdin := by
  induction hlength : stdin.length using Nat.strong_induction_on generalizing stdin with
  | h n ih =>
    rcases exists_line stdin with hline | ⟨line, rest, hline, rfl⟩
    -- the last line has no newline behind it
    · rw [commandLines_last hline] at hfits ⊢
      apply myBash_last hnul hline
      by_cases hplain : stdin = [] ∨ stdin = exitInput
      · rcases hplain with rfl | rfl <;> decide
      · exact hfits stdin (by simp [hplain])
    · rw [List.mem_append, not_or] at hnul
      have hrest : nul ∉ rest := fun h => hnul.2 (List.mem_cons_of_mem _ h)
      have hlt : rest.length < n := by
        rw [← hlength, List.length_append, List.length_cons]
        omega
      rw [commandLines_line hline] at hfits ⊢
      by_cases hempty : line = []
      · rw [if_pos hempty] at hfits
        rw [myBash_line hnul.1 hline (by rw [hempty]; decide), if_pos hempty, if_pos hempty]
        exact ih _ hlt hrest hfits rfl
      · by_cases hexit : line = exitInput
        · rw [myBash_line hnul.1 hline (by rw [hexit]; decide)]
          simp [hexit, exitInput_ne_nil]
        · rw [if_neg hempty, if_neg hexit] at hfits
          rw [myBash_line hnul.1 hline (hfits line (by simp)), if_neg hempty, if_neg hexit,
            if_neg hempty, if_neg hexit]
          have hthen := ih _ hlt hrest (fun l hl => hfits l (List.mem_cons_of_mem line hl)) rfl
          rw [hthen]

/-- The inputs of a text without terminators are its lines, up to `exit`, if and only if
each of these lines has less than `maxInputSize` bytes. -/
theorem myBash_eq_commandLines_iff (hnul : nul ∉ stdin) :
    myBash stdin = commandLines stdin ↔
      ∀ line ∈ commandLines stdin, line.length < maxInputSize := by
  constructor
  · intro h line hline
    rw [← h] at hline
    exact length_lt_of_mem hline
  · exact myBash_eq_commandLines hnul

end UnixLessons.Shell

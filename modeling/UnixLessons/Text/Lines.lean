import UnixLessons.Text.CString

/-!
# Reading lines

`fgets` reads a line into a buffer, or as much of it as fits: what is left of a
long line is read by the next call as if it were a line of its own.
-/

namespace UnixLessons.Text

/-- Read up to and including the first newline, but at most `n` characters: what
was read and what is left. -/
def readLine : ℕ → CString → CString × CString
  | 0, input => ([], input)
  | _ + 1, [] => ([], [])
  | n + 1, c :: input =>
    if c = '\n' then ([c], input)
    else ((c :: (readLine n input).1), (readLine n input).2)

/-- `fgets` into a buffer of `size` characters; `none` at the end of the input. -/
def fgets (size : ℕ) (input : CString) : Option (CString × CString) :=
  if input = [] then none else some (readLine (size - 1) input)

/-- The string is cut at its first newline, as `s[strcspn(s, "\n")] = 0` does. -/
def removeNewline (s : CString) : CString := s.takeWhile (· ≠ '\n')

variable {n size : ℕ} {input line rest : CString}

theorem readLine_append (n : ℕ) (input : CString) :
    (readLine n input).1 ++ (readLine n input).2 = input := by
  induction n, input using readLine.induct with
  | case1 input => rfl
  | case2 n => rfl
  | case3 n input => simp [readLine]
  | case4 n c input hc ih => simp [readLine, hc, ih]

theorem length_readLine_le (n : ℕ) (input : CString) : (readLine n input).1.length ≤ n := by
  induction n, input using readLine.induct with
  | case1 input => simp [readLine]
  | case2 n => simp [readLine]
  | case3 n input => simp [readLine]
  | case4 n c input hc ih =>
    rw [readLine, if_neg hc]
    simpa using ih

theorem fgets_eq_none : fgets size input = none ↔ input = [] := by
  simp [fgets]

/-- Nothing is lost and nothing is read twice. -/
theorem fgets_append (h : fgets size input = some (line, rest)) : line ++ rest = input := by
  unfold fgets at h
  split at h
  · cases h
  · have hall := readLine_append (size - 1) input
    rwa [Option.some.inj h] at hall

/-- What was read fits before the terminator. -/
theorem length_fgets_lt (hsize : 0 < size) (h : fgets size input = some (line, rest)) :
    line.length < size := by
  unfold fgets at h
  split at h
  · cases h
  · have hle := length_readLine_le (size - 1) input
    rw [Option.some.inj h] at hle
    dsimp only at hle
    omega

theorem readLine_ne_nil (hn : 0 < n) (hinput : input ≠ []) : (readLine n input).1 ≠ [] := by
  obtain ⟨k, rfl⟩ := Nat.exists_eq_succ_of_ne_zero hn.ne'
  obtain ⟨c, rest, rfl⟩ := List.exists_cons_of_ne_nil hinput
  rw [readLine]
  split <;> exact List.cons_ne_nil _ _

/-- Each call reads something. -/
theorem length_rest_lt (hsize : 1 < size) (h : fgets size input = some (line, rest)) :
    rest.length < input.length := by
  have hall := congrArg List.length (fgets_append h)
  rw [List.length_append] at hall
  have hline : line ≠ [] := by
    unfold fgets at h
    split at h
    · cases h
    · rename_i hinput
      have hread := readLine_ne_nil (Nat.sub_pos_of_lt hsize) hinput
      rwa [Option.some.inj h] at hread
  have hpos := List.length_pos_iff.mpr hline
  omega

/-! ### Lines of a text -/

/-- A text is one line, or it has a first line and a rest. -/
theorem exists_line (input : CString) :
    '\n' ∉ input ∨ ∃ line rest, '\n' ∉ line ∧ input = line ++ '\n' :: rest := by
  by_cases h : '\n' ∈ input
  · obtain ⟨line, rest, hinput, hline⟩ := List.eq_append_cons_of_mem h
    exact .inr ⟨line, rest, hline, hinput⟩
  · exact .inl h

theorem readLine_of_lt (hline : '\n' ∉ line) (hlength : line.length < n) :
    readLine n (line ++ '\n' :: rest) = (line ++ ['\n'], rest) := by
  induction line generalizing n with
  | nil =>
    obtain ⟨k, rfl⟩ := Nat.exists_eq_succ_of_ne_zero (Nat.ne_of_gt hlength)
    simp [readLine]
  | cons c line ih =>
    obtain ⟨k, rfl⟩ := Nat.exists_eq_succ_of_ne_zero (Nat.ne_zero_of_lt hlength)
    rw [List.mem_cons, not_or] at hline
    simp [readLine, Ne.symm hline.1, ih hline.2 (Nat.lt_of_succ_lt_succ hlength)]

/-- A line that fills the buffer is read without its newline. -/
theorem readLine_of_eq (hline : '\n' ∉ line) :
    readLine line.length (line ++ rest) = (line, rest) := by
  induction line with
  | nil => rfl
  | cons c line ih =>
    rw [List.mem_cons, not_or] at hline
    simp [readLine, Ne.symm hline.1, ih hline.2]

/-- What was read would be read again just like that. -/
theorem readLine_readLine (n : ℕ) (input : CString) :
    readLine n (readLine n input).1 = ((readLine n input).1, []) := by
  induction n, input using readLine.induct with
  | case1 input => rfl
  | case2 n => rfl
  | case3 n input => simp [readLine]
  | case4 n c input hc ih => simp [readLine, hc, ih]

/-- A line of which a part has been read goes on as far as there is room. -/
theorem readLine_append_of_notMem (hline : '\n' ∉ line) (hlength : line.length ≤ n) :
    readLine n (line ++ rest) =
      (line ++ (readLine (n - line.length) rest).1, (readLine (n - line.length) rest).2) := by
  induction line generalizing n with
  | nil => rfl
  | cons c line ih =>
    obtain ⟨k, rfl⟩ := Nat.exists_eq_succ_of_ne_zero (Nat.ne_zero_of_lt hlength)
    rw [List.mem_cons, not_or] at hline
    simp [readLine, Ne.symm hline.1, ih hline.2 (Nat.le_of_succ_le_succ hlength)]

/-- A line that has been read to its end stays as it is. -/
theorem readLine_append_of_complete (hline : readLine n line = (line, []))
    (hend : '\n' ∈ line ∨ line.length = n) : readLine n (line ++ rest) = (line, rest) := by
  induction n, line using readLine.induct with
  | case1 line =>
    obtain rfl : line = [] := by simpa [readLine] using hline
    rfl
  | case2 n => simp at hend
  | case3 n line =>
    obtain rfl : line = [] := by simpa [readLine] using hline
    simp [readLine]
  | case4 n c line hc ih =>
    have hrest : readLine n line = (line, []) := by
      simpa [readLine, hc, Prod.ext_iff] using hline
    have hend' : '\n' ∈ line ∨ line.length = n := by
      simpa [Ne.symm hc] using hend
    simp [readLine, hc, ih hrest hend']

/-- The last line may end without a newline. -/
theorem readLine_of_le (hline : '\n' ∉ line) (hlength : line.length ≤ n) :
    readLine n line = (line, []) := by
  induction line generalizing n with
  | nil => cases n <;> rfl
  | cons c line ih =>
    obtain ⟨k, rfl⟩ := Nat.exists_eq_succ_of_ne_zero (Nat.ne_zero_of_lt hlength)
    rw [List.mem_cons, not_or] at hline
    simp [readLine, Ne.symm hline.1, ih hline.2 (Nat.le_of_succ_le_succ hlength)]

theorem removeNewline_of_notMem (h : '\n' ∉ line) : removeNewline line = line := by
  rw [removeNewline, List.takeWhile_eq_self_iff]
  intro c hc
  simpa using fun he : c = '\n' => h (he ▸ hc)

theorem removeNewline_append (h : '\n' ∉ line) : removeNewline (line ++ '\n' :: rest) = line := by
  rw [removeNewline, List.takeWhile_append_of_pos]
  · simp
  · intro c hc
    simpa using fun he : c = '\n' => h (he ▸ hc)

theorem splitOn_of_notMem (h : '\n' ∉ line) : line.splitOn '\n' = [line] :=
  List.splitOn_eq_singleton h

theorem splitOn_line (h : '\n' ∉ line) :
    (line ++ '\n' :: rest).splitOn '\n' = line :: rest.splitOn '\n' := by
  rw [List.splitOn_eq_splitOnP, List.splitOn_eq_splitOnP]
  apply List.splitOnP_append_cons_of_forall_mem
  · intro c hc
    simpa using fun he : c = '\n' => h (he ▸ hc)
  · simp

end UnixLessons.Text

import UnixLessons.Shell.Input
import UnixLessons.Transition.Run

/-!
# Who else reads the shell's lines?

`fgets` reads the standard input in blocks and hands it out line by line. The offset of
the open file, from which the next block is read, belongs to the children as well: a
command that reads moves it forward, and in a regular file a child whose `execvp` has
failed moves it back when it exits, by what was unread in its copy of the buffer.

## Main results

* `Sound`: what has been dispatched and what is left make up the text
* `dispatchesLines_iff`: the commands are the lines exactly if the lines fit
-/

namespace UnixLessons.Shell.SharedInput

open Text Transition

/-- What a loop makes of an input, from which the input can still be told. -/
structure Dispatcher (β : Type*) where
  dispatch : CString → β
  input : β → CString
  input_dispatch : ∀ text, input (dispatch text) = text

/-- The shell with pipes. -/
def bushFix : Dispatcher Dispatch := ⟨dispatch, Dispatch.input, input_dispatch⟩

/-- The shell without pipes. -/
def myBash : Dispatcher CString := ⟨id, id, fun _ => rfl⟩

/-- The open file the shell has as its standard input. The offset of a regular file can
be set back, that of a pipe or a terminal cannot. -/
structure Stdin where
  text : CString
  seekable : Bool

/-- Where the main loop is. -/
inductive Pc where
  /-- In `fgets`, with this much of the line read. -/
  | reading (line : CString)
  /-- A command is executed. -/
  | executing
  | ended
deriving DecidableEq

/-- The shell and the offset that it shares with its children. -/
structure State (β : Type*) where
  pc : Pc
  offset : ℕ
  /-- Where the last `read` of the shell ended. -/
  taken : ℕ
  /-- What `stdin` has buffered and `fgets` not handed out. -/
  unread : CString
  /-- The end-of-file indicator of `stdin`. -/
  eof : Bool
  dispatched : List β
deriving DecidableEq

/-- The shell before its first prompt. -/
def State.start {β : Type*} : State β := ⟨.reading [], 0, 0, [], false, []⟩

inductive Action where
  /-- The main loop goes on, as far as it does not have to read. -/
  | main
  /-- `fgets` reads a block of at most `size` bytes. -/
  | read (size : ℕ)
  /-- A child whose `execvp` has failed calls `exit`. -/
  | exit
  /-- A command that reads, or anybody else, moves the offset. -/
  | move (offset : ℕ)

variable {β : Type*}

/-- `fgets` needs no more for this line. -/
def Complete (line : CString) : Prop := '\n' ∈ line ∨ line.length = maxInputSize - 1

instance (line : CString) : Decidable (Complete line) := inferInstanceAs (Decidable (_ ∨ _))

/-- What the loop does with the line that `fgets` has read. -/
def State.gotLine (dispatch : CString → β) (s : State β) (line : CString) : State β :=
  let input := removeNewline (cstr line)
  if input = [] then { s with pc := .reading [] }
  else if input = exitInput then { s with pc := .ended }
  else { s with pc := .executing, dispatched := s.dispatched ++ [dispatch input] }

/-- `fgets` takes what there is of the line out of the buffer. -/
def State.copy (s : State β) (line : CString) : State β :=
  let read := readLine (maxInputSize - 1 - line.length) s.unread
  { s with pc := .reading (line ++ read.1), unread := read.2 }

/-- The buffer is filled with the next block. -/
def State.fill (stdin : Stdin) (s : State β) (size : ℕ) : State β :=
  let block := (stdin.text.drop s.offset).take size
  { s with
    offset := s.offset + block.length
    taken := s.offset + block.length
    unread := block
    eof := block.isEmpty }

def mainLoop (dispatch : CString → β) (s : State β) : Option (State β) :=
  match s.pc with
  | .reading line =>
    if Complete line then some (s.gotLine dispatch line)
    else if s.unread ≠ [] then some (s.copy line)
    else if s.eof then
      -- `fgets` returns `NULL` only if it has read nothing
      if line = [] then some { s with pc := .ended } else some (s.gotLine dispatch line)
    else none
  -- the command is over, or could not be started
  | .executing => some { s with pc := .reading [] }
  | .ended => none

def readBlock (stdin : Stdin) (s : State β) (size : ℕ) : Option (State β) :=
  match s.pc with
  | .reading line =>
    if ¬ Complete line ∧ s.unread = [] ∧ s.eof = false ∧ 0 < size then some (s.fill stdin size)
    else none
  | .executing | .ended => none

/-- The child's `stdin` is a copy of the shell's. What it has not handed out is given
back with `lseek`, which fails in a pipe and before the start of the file. -/
def childExit (stdin : Stdin) (s : State β) : Option (State β) :=
  if s.pc = .executing then
    if stdin.seekable ∧ s.unread.length ≤ s.offset then
      some { s with offset := s.offset - s.unread.length }
    else some s
  else none

def step (dispatch : CString → β) (stdin : Stdin) (s : State β) : Action → Option (State β)
  | .main => mainLoop dispatch s
  | .read size => readBlock stdin s size
  | .exit => childExit stdin s
  | .move offset =>
    if stdin.seekable ∨ s.offset ≤ offset then some { s with offset } else none

/-- The shell reads on from where it stopped reading. -/
def Undisturbed (s : State β) : Action → Prop
  | .read _ => s.offset = s.taken
  | .main | .exit | .move _ => True

instance (s : State β) : ∀ a, Decidable (Undisturbed s a)
  | .read _ => inferInstanceAs (Decidable (_ = _))
  | .main | .exit | .move _ => inferInstanceAs (Decidable True)

/-! ### What has been dispatched and what is left -/

/-- What the shell has not dispatched yet, if nobody else reads. -/
def State.left (dispatch : CString → β) (stdin : Stdin) (s : State β) : List β :=
  match s.pc with
  | .reading line => shellLoop dispatch (line ++ (s.unread ++ stdin.text.drop s.taken))
  | .executing => shellLoop dispatch (s.unread ++ stdin.text.drop s.taken)
  | .ended => []

/-- Nothing of the text is dispatched twice and nothing is lost. -/
structure Sound (dispatch : CString → β) (stdin : Stdin) (s : State β) : Prop where
  all : s.dispatched ++ s.left dispatch stdin = shellLoop dispatch stdin.text
  line : ∀ line, s.pc = .reading line → readLine (maxInputSize - 1) line = (line, [])
  eof : s.eof = true → stdin.text.drop s.taken = []

variable {dispatch : CString → β} {stdin : Stdin} {s t : State β} {a : Action}
variable {line rest : CString}

theorem sound_start : Sound dispatch stdin .start where
  all := rfl
  line line h := by
    obtain rfl : [] = line := Pc.reading.inj h
    rfl
  eof h := by cases h

theorem Complete.ne_nil (h : Complete line) : line ≠ [] := by
  rintro rfl
  revert h
  decide

theorem fgets_of_complete (hline : readLine (maxInputSize - 1) line = (line, []))
    (hend : Complete line) : fgets maxInputSize (line ++ rest) = some (line, rest) := by
  rw [fgets, if_neg (by simp [hend.ne_nil]), readLine_append_of_complete hline hend]

namespace Sound

/-- The loop goes on behind a line that `fgets` has read. -/
theorem gotLine (h : Sound dispatch stdin s) (hpc : s.pc = .reading line)
    (hread : fgets maxInputSize (line ++ (s.unread ++ stdin.text.drop s.taken)) =
      some (line, s.unread ++ stdin.text.drop s.taken)) :
    Sound dispatch stdin (s.gotLine dispatch line) := by
  have hall := h.all
  rw [State.left, hpc] at hall
  dsimp only at hall
  rw [shellLoop_some hread] at hall
  unfold State.gotLine
  dsimp only
  split
  · rename_i hempty
    rw [if_pos hempty] at hall
    exact ⟨hall, fun line hline => Pc.reading.inj hline ▸ rfl, h.eof⟩
  rename_i hempty
  rw [if_neg hempty] at hall
  split
  · rename_i hexit
    rw [if_pos hexit] at hall
    exact ⟨hall, fun _ hline => Pc.noConfusion hline, h.eof⟩
  · rename_i hexit
    rw [if_neg hexit] at hall
    refine ⟨?_, fun _ hline => Pc.noConfusion hline, h.eof⟩
    rw [State.left, List.append_assoc]
    exact hall

/-- A line that is not complete has room for more. -/
theorem length_lt (h : Sound dispatch stdin s) (hpc : s.pc = .reading line)
    (hmore : ¬ Complete line) : line.length < maxInputSize - 1 := by
  have hle := length_readLine_le (maxInputSize - 1) line
  rw [h.line line hpc] at hle
  rw [Complete, not_or] at hmore
  exact Nat.lt_of_le_of_ne hle hmore.2

theorem copy (h : Sound dispatch stdin s) (hpc : s.pc = .reading line)
    (hmore : ¬ Complete line) : Sound dispatch stdin (s.copy line) := by
  have hlength := (h.length_lt hpc hmore).le
  rw [Complete, not_or] at hmore
  refine ⟨?_, fun read hread => ?_, h.eof⟩
  · have hall := h.all
    rw [State.left, hpc] at hall
    dsimp only at hall
    rw [State.left, State.copy]
    dsimp only
    rw [List.append_assoc, ← List.append_assoc _ _ (List.drop _ _), readLine_append]
    exact hall
  · obtain rfl := Pc.reading.inj hread
    rw [readLine_append_of_notMem hmore.1 hlength, readLine_readLine]

/-- A block that starts where the one before it ended. -/
theorem fill (h : Sound dispatch stdin s) (hpc : s.pc = .reading line)
    (hplace : s.offset = s.taken) (hunread : s.unread = []) {size : ℕ} (hsize : 0 < size) :
    Sound dispatch stdin (s.fill stdin size) := by
  have hblock := List.prefix_iff_eq_append.mp (List.take_prefix size (stdin.text.drop s.taken))
  rw [List.drop_drop] at hblock
  have hall := h.all
  rw [State.left, hpc] at hall
  dsimp only at hall
  rw [hunread, List.nil_append] at hall
  refine ⟨?_, fun line hline => h.line line hline, fun heof => ?_⟩
  -- the block and what is behind it are what was behind the block before
  · rw [State.left, State.fill]
    dsimp only
    rw [hpc, hplace, hblock]
    exact hall
  · rw [State.fill, hplace] at heof ⊢
    have hnil : (stdin.text.drop s.taken).take size = [] := List.isEmpty_iff.mp heof
    dsimp only
    rw [hnil, List.length_nil, Nat.add_zero]
    -- a block of no bytes was asked for more than none
    exact (List.take_eq_nil_iff.mp hnil).resolve_left hsize.ne'

theorem mainLoop (h : Sound dispatch stdin s) (hstep : mainLoop dispatch s = some t) :
    Sound dispatch stdin t := by
  unfold SharedInput.mainLoop at hstep
  cases hpc : s.pc with
  | reading line =>
    simp only [hpc] at hstep
    split at hstep
    -- `fgets` returns here, whatever there is behind the line
    · rename_i hend
      exact Option.some.inj hstep ▸ h.gotLine hpc (fgets_of_complete (h.line line hpc) hend)
    rename_i hmore
    split at hstep
    · exact Option.some.inj hstep ▸ h.copy hpc hmore
    rename_i hunread
    split at hstep
    · rename_i heof
      -- the text ends here, and so does its last line
      have hrest : s.unread ++ stdin.text.drop s.taken = [] := by
        rw [not_not.mp hunread, h.eof heof, List.append_nil]
      split at hstep
      · rename_i hempty
        obtain rfl := Option.some.inj hstep
        have hall := h.all
        rw [State.left, hpc] at hall
        dsimp only at hall
        rw [hrest, hempty, List.append_nil, shellLoop_none (fgets_eq_none.mpr rfl)] at hall
        exact ⟨hall, fun _ hline => Pc.noConfusion hline, h.eof⟩
      · rename_i hempty
        refine Option.some.inj hstep ▸ h.gotLine hpc ?_
        rw [hrest, List.append_nil, fgets, if_neg hempty, h.line line hpc]
    · cases hstep
  | executing =>
    simp only [hpc] at hstep
    obtain rfl := Option.some.inj hstep
    refine ⟨?_, fun line hline => Pc.reading.inj hline ▸ rfl, h.eof⟩
    have hall := h.all
    rw [State.left, hpc] at hall
    exact hall
  | ended =>
    simp only [hpc] at hstep
    cases hstep

theorem readBlock (h : Sound dispatch stdin s) (hplace : s.offset = s.taken) {size : ℕ}
    (hstep : readBlock stdin s size = some t) : Sound dispatch stdin t := by
  unfold SharedInput.readBlock at hstep
  cases hpc : s.pc with
  | reading line =>
    simp only [hpc] at hstep
    split at hstep
    · rename_i hmay
      exact Option.some.inj hstep ▸ h.fill hpc hplace hmay.2.1 hmay.2.2.2
    · cases hstep
  | executing =>
    simp only [hpc] at hstep
    cases hstep
  | ended =>
    simp only [hpc] at hstep
    cases hstep

/-- What the children do to the offset changes nothing the shell has read. -/
theorem setOffset (h : Sound dispatch stdin s) (offset : ℕ) :
    Sound dispatch stdin { s with offset } := ⟨h.all, h.line, h.eof⟩

theorem next (h : Sound dispatch stdin s) (hcond : Undisturbed s a)
    (hstep : step dispatch stdin s a = some t) : Sound dispatch stdin t := by
  cases a with
  | main => exact h.mainLoop hstep
  | read size => exact h.readBlock hcond hstep
  | exit =>
    simp only [step, childExit] at hstep
    split at hstep
    · split at hstep
      · exact Option.some.inj hstep ▸ h.setOffset _
      · exact Option.some.inj hstep ▸ h
    · cases hstep
  | move offset =>
    simp only [step] at hstep
    split at hstep
    · exact Option.some.inj hstep ▸ h.setOffset offset
    · cases hstep

end Sound

/-! ### The way to the end -/

/-- How much of the loop there is still to come. -/
def Pc.size : Pc → ℕ
  | .reading line => 2 * line.length + 1
  | .executing => 2
  | .ended => 0

/-- What is still to be read counts more than what has been read, and this more than what
is in the line already. -/
def State.size (stdin : Stdin) (s : State β) : ℕ :=
  4 * (stdin.text.length - s.offset) + 3 * s.unread.length + (!s.eof).toNat + s.pc.size

theorem size_gotLine_lt (hpc : s.pc = .reading line) (hline : line ≠ []) :
    (s.gotLine dispatch line).size stdin < s.size stdin := by
  have hpos := List.length_pos_iff.mpr hline
  unfold State.gotLine
  dsimp only
  split
  · simp only [State.size, hpc, Pc.size, List.length_nil]
    omega
  split
  · simp only [State.size, hpc, Pc.size]
    omega
  · simp only [State.size, hpc, Pc.size]
    omega

theorem size_copy_lt (hpc : s.pc = .reading line) (hlength : line.length < maxInputSize - 1)
    (hunread : s.unread ≠ []) : (s.copy line).size stdin < s.size stdin := by
  have hpos := List.length_pos_iff.mpr
    (readLine_ne_nil (Nat.sub_pos_of_lt hlength) hunread)
  have hall := congrArg List.length
    (readLine_append (maxInputSize - 1 - line.length) s.unread)
  rw [List.length_append] at hall
  simp only [State.copy, State.size, hpc, Pc.size, List.length_append]
  omega

theorem size_fill_lt (hpc : s.pc = .reading line) (hunread : s.unread = [])
    (heof : s.eof = false) {size : ℕ} : (s.fill stdin size).size stdin < s.size stdin := by
  have hle : ((stdin.text.drop s.offset).take size).length ≤ stdin.text.length - s.offset := by
    rw [List.length_take, List.length_drop]
    exact min_le_right _ _
  simp only [State.fill, State.size, hpc, hunread, heof, List.length_nil]
  cases hblock : (stdin.text.drop s.offset).take size with
  -- at the end of the text only the indicator changes
  | nil => simp
  | cons c block =>
    rw [hblock] at hle
    simp only [List.isEmpty_cons, List.length_cons] at hle ⊢
    omega

theorem gotLine_place (s : State β) (line : CString) :
    (s.gotLine dispatch line).offset = s.offset ∧ (s.gotLine dispatch line).taken = s.taken := by
  unfold State.gotLine
  dsimp only
  split
  · exact ⟨rfl, rfl⟩
  split <;> exact ⟨rfl, rfl⟩

/-- The shell can always go on, and then there is less to come. -/
theorem Sound.exists_step (h : Sound dispatch stdin s) (hplace : s.offset = s.taken)
    (hpc : s.pc ≠ .ended) :
    ∃ a t, Undisturbed s a ∧ step dispatch stdin s a = some t ∧ t.offset = t.taken ∧
      t.size stdin < s.size stdin := by
  cases hat : s.pc with
  | reading line =>
    have hplace' : (s.gotLine dispatch line).offset = (s.gotLine dispatch line).taken := by
      rw [(gotLine_place s line).1, (gotLine_place s line).2, hplace]
    by_cases hend : Complete line
    · refine ⟨.main, s.gotLine dispatch line, trivial, ?_, hplace', size_gotLine_lt hat hend.ne_nil⟩
      simp only [step, SharedInput.mainLoop, hat]
      rw [if_pos hend]
    by_cases hunread : s.unread ≠ []
    · refine ⟨.main, s.copy line, trivial, ?_, hplace,
        size_copy_lt hat (h.length_lt hat hend) hunread⟩
      simp only [step, SharedInput.mainLoop, hat]
      rw [if_neg hend, if_pos hunread]
    by_cases heof : s.eof = true
    · by_cases hempty : line = []
      · refine ⟨.main, { s with pc := .ended }, trivial, ?_, hplace, ?_⟩
        · simp only [step, SharedInput.mainLoop, hat]
          rw [if_neg hend, if_neg hunread, if_pos heof, if_pos hempty]
        · simp [State.size, hat, Pc.size]
      · refine ⟨.main, s.gotLine dispatch line, trivial, ?_, hplace', size_gotLine_lt hat hempty⟩
        simp only [step, SharedInput.mainLoop, hat]
        rw [if_neg hend, if_neg hunread, if_pos heof, if_neg hempty]
    -- nothing is left in the buffer, so a block has to be read, and any size will do
    · have hunread := not_not.mp hunread
      have heof := Bool.eq_false_iff.mpr heof
      refine ⟨.read 1, s.fill stdin 1, hplace, ?_, rfl, size_fill_lt hat hunread heof⟩
      simp only [step, SharedInput.readBlock, hat]
      rw [if_pos ⟨hend, hunread, heof, Nat.one_pos⟩]
  | executing =>
    refine ⟨.main, { s with pc := .reading [] }, trivial, ?_, hplace, ?_⟩
    · simp only [step, SharedInput.mainLoop, hat]
    · simp [State.size, hat, Pc.size]
  | ended => exact absurd hat hpc

/-- The loop comes to its end, if nobody else reads from now on. -/
theorem Sound.exists_end (h : Sound dispatch stdin s) (hplace : s.offset = s.taken) :
    ∃ as t, Along (step dispatch stdin) Undisturbed s as ∧
      run (step dispatch stdin) s as = some t ∧ t.pc = .ended := by
  induction hn : s.size stdin using Nat.strong_induction_on generalizing s with
  | h n ih =>
    by_cases hpc : s.pc = .ended
    · exact ⟨[], s, trivial, rfl, hpc⟩
    · obtain ⟨a, t, hcond, hstep, hplace', hless⟩ := h.exists_step hplace hpc
      obtain ⟨as, u, halong, hrun, hend⟩ :=
        ih (t.size stdin) (hn ▸ hless) (h.next hcond hstep) hplace' rfl
      exact ⟨a :: as, u, (along_cons_of_step hstep).mpr ⟨hcond, halong⟩,
        run_cons_eq_some.mpr ⟨t, hstep, hrun⟩, hend⟩

/-! ### The main result -/

theorem map_left (d : Dispatcher β) (text : CString) :
    (shellLoop d.dispatch text).map d.input = Shell.myBash text := by
  rw [map_shellLoop, Shell.myBash]
  congr 1
  exact funext d.input_dispatch

/-- For every standard input without terminators and every run in which nobody else moves
its offset before the shell reads on, whatever the sizes of the blocks and the shell's
kind: when the loop has ended, it has dispatched exactly the lines up to `exit`, if and
only if each of these lines has less than `maxInputSize` bytes. Lines that do are
dispatched one after the other all along, and the loop can always come to its end. -/
theorem dispatchesLines_iff (d : Dispatcher β) {as : List Action}
    (hnul : nul ∉ stdin.text) {t : State β}
    (halong : Along (step d.dispatch stdin) Undisturbed .start as)
    (hrun : run (step d.dispatch stdin) .start as = some t) :
    (t.pc = .ended →
      (t.dispatched.map d.input = commandLines stdin.text ↔
        ∀ line ∈ commandLines stdin.text, line.length < maxInputSize)) ∧
    ((∀ line ∈ commandLines stdin.text, line.length < maxInputSize) →
      t.dispatched.map d.input <+: commandLines stdin.text) ∧
    (t.offset = t.taken →
      ∃ bs u, Along (step d.dispatch stdin) Undisturbed t bs ∧
        run (step d.dispatch stdin) t bs = some u ∧ u.pc = .ended) := by
  have hsound : Sound d.dispatch stdin t :=
    Along.run (fun _ _ _ => Sound.next) sound_start halong hrun
  have hall := congrArg (List.map d.input) hsound.all
  rw [map_left, List.map_append] at hall
  refine ⟨fun hend => ?_, fun hfits => ?_, hsound.exists_end⟩
  · rw [← myBash_eq_commandLines_iff hnul, ← hall, State.left, hend, List.map_nil,
      List.append_nil]
  · rw [← (myBash_eq_commandLines_iff hnul).mpr hfits, ← hall]
    exact List.prefix_append _ _

/-- A script in a regular file. -/
def script : Stdin := ⟨"ls | wc\n\nnosuch\nexit\nps\n".toList, true⟩

/-- Two commands and `exit`. The second cannot be executed and its child moves the offset
back to `exit`, but the shell has read it already. -/
def scriptRun : List Action :=
  [.read 4096, .main, .main, .main, .main, .main, .main, .main, .exit, .main, .main, .main]

theorem dispatchesLines_iff_script :
    ∃ t, run (step bushFix.dispatch script) .start scriptRun = some t ∧
      t.dispatched.map bushFix.input = ["ls | wc".toList, "nosuch".toList] := by
  obtain ⟨t, hrun⟩ : ∃ t, run (step bushFix.dispatch script) .start scriptRun = some t :=
    Option.isSome_iff_exists.mp (by decide)
  have hend : (run (step bushFix.dispatch script) .start scriptRun).map State.pc = some .ended := by
    decide
  rw [hrun] at hend
  refine ⟨t, hrun, ?_⟩
  refine ((dispatchesLines_iff bushFix (by decide) ?_ hrun).1 (Option.some.inj hend)).mpr ?_
  · decide
  · decide

/-- A line of 1029 bytes. -/
def longLine : CString := List.replicate 1023 'a' ++ "reboot".toList

theorem length_longLine : longLine.length = 1029 := by
  rw [longLine, List.length_append, List.length_replicate]
  rfl

theorem notMem_longLine {c : Char} (ha : c ≠ 'a') (hreboot : c ∉ "reboot".toList) :
    c ∉ longLine := by
  intro hmem
  rcases List.mem_append.mp hmem with hmem | hmem
  · exact ha (List.eq_of_mem_replicate hmem)
  · exact hreboot hmem

theorem reboot_mem_myBash : "reboot".toList ∈ Shell.myBash (longLine ++ ['\n']) := by
  have hchar : ∀ c, c ≠ 'a' → c ∉ List.replicate 1023 'a' :=
    fun c hc hmem => hc (List.eq_of_mem_replicate hmem)
  have hpiece : Shell.myBash (List.replicate 1023 'a' ++ ("reboot".toList ++ ['\n'])) = _ :=
    myBash_piece (hchar nul (by decide)) (hchar '\n' (by decide)) List.length_replicate
  have hend : Shell.myBash ("reboot".toList ++ '\n' :: []) = _ :=
    myBash_line (by decide) (by decide) (by decide)
  rw [longLine, List.append_assoc, hpiece, hend, if_neg (by decide), if_neg (by decide)]
  exact List.mem_cons_of_mem _ List.mem_cons_self

theorem commandLines_longLine : commandLines (longLine ++ ['\n']) = [longLine] := by
  have hline : commandLines (longLine ++ '\n' :: []) = _ :=
    commandLines_line (notMem_longLine (by decide) (by decide))
  have hother : ∀ line : CString, line.length ≠ 1029 → longLine ≠ line :=
    fun line hlength heq => hlength (heq ▸ length_longLine)
  rw [hline, if_neg (hother [] (by decide)), if_neg (hother exitInput (by decide))]
  rfl

/-- A script whose first command cannot be executed. -/
def failing : Stdin := ⟨"nosuch\nls\n".toList, true⟩

/-- Nobody has to touch the standard input for the end of a long line to be run as the
command `reboot`. And in a regular file a failing command has the line behind it run
twice, however short the lines are. -/
theorem not_dispatchesLines :
    (∃ as t, nul ∉ longLine ++ ['\n'] ∧
      Along (step bushFix.dispatch ⟨longLine ++ ['\n'], false⟩) Undisturbed .start as ∧
      run (step bushFix.dispatch ⟨longLine ++ ['\n'], false⟩) .start as = some t ∧
      t.pc = .ended ∧ "reboot".toList ∈ t.dispatched.map bushFix.input ∧
      commandLines (longLine ++ ['\n']) = [longLine]) ∧
    (∃ t, run (step bushFix.dispatch failing) .start
        [.read 4096, .main, .main, .exit, .main, .main, .main, .main, .read 4096, .main, .main,
          .main, .read 4096, .main] = some t ∧
      t.pc = .ended ∧
      t.dispatched.map bushFix.input = ["nosuch".toList, "ls".toList, "ls".toList] ∧
      commandLines failing.text = ["nosuch".toList, "ls".toList]) := by
  constructor
  · let stdin : Stdin := ⟨longLine ++ ['\n'], false⟩
    obtain ⟨as, t, halong, hrun, hend⟩ :=
      (sound_start : Sound bushFix.dispatch stdin .start).exists_end rfl
    have hsound : Sound bushFix.dispatch stdin t :=
      Along.run (fun _ _ _ => Sound.next) sound_start halong hrun
    have hall := congrArg (List.map bushFix.input) hsound.all
    rw [map_left, State.left, hend, List.append_nil] at hall
    refine ⟨as, t, ?_, halong, hrun, hend, hall ▸ reboot_mem_myBash, commandLines_longLine⟩
    intro hmem
    rcases List.mem_append.mp hmem with hmem | hmem
    · exact notMem_longLine (by decide) (by decide) hmem
    · exact absurd hmem (by decide)
  · refine ⟨⟨.ended, 10, 10, [], true, [.simpleCommand "nosuch".toList, .simpleCommand "ls".toList,
      .simpleCommand "ls".toList]⟩, ?_, rfl, rfl, ?_⟩
    · decide
    · decide

end UnixLessons.Shell.SharedInput

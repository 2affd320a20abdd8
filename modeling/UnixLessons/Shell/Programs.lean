import UnixLessons.Shell.Arguments

/-!
# Does the shell run nothing?

Main drops an input without characters, but the arguments are made later, from what is
left between the spaces. A blank command gets an array that starts with `NULL`, and this
array is handed to `execvp` as the program's name.

## Main result

* `namesPrograms_iff`: every command has a program exactly if none of them is blank
-/

namespace UnixLessons.Shell

open Text

/-- A call of `execvp`, in the child's copy of the memory. -/
structure Exec where
  memory : Memory
  args : Args

/-- Whether `pipe` and the two calls of `fork` succeed. -/
structure Outcomes where
  pipe : Bool
  fork1 : Bool
  fork2 : Bool

/-- The calls of `execvp` that a simple command leads to. -/
def executeSimpleCommand (buffer : Buffer) (input : ℤ) (args : Args) (outcomes : Outcomes) :
    Option (List Exec) := do
  let (buffer, args) ← parseArguments buffer input args
  if outcomes.fork1 then some [⟨buffer.memory, args⟩] else some []

/-- The calls of `execvp` that a pipeline leads to. -/
def executePipeCommand (buffer : Buffer) (input pipePos : ℤ) (args1 args2 : Args)
    (outcomes : Outcomes) : Option (List Exec) := do
  let (buffer, args1, args2) ← splitPipe buffer input pipePos args1 args2
  if outcomes.pipe = false then some []
  else if outcomes.fork1 = false then some []
  -- by then the first child is there
  else if outcomes.fork2 = false then some [⟨buffer.memory, args1⟩]
  else some [⟨buffer.memory, args1⟩, ⟨buffer.memory, args2⟩]

/-- What else the memory holds when an input is executed: the bytes behind it in the buffer,
the position kept by `strtok` and the contents of the argument arrays. -/
structure Surroundings where
  behind : List Char
  position : Option ℤ
  args1 : Args
  args2 : Args

/-- The calls of `execvp` for an input. -/
def Dispatch.execvps (around : Surroundings) (outcomes : Outcomes) :
    Dispatch → Option (List Exec)
  | .simpleCommand input =>
    executeSimpleCommand ⟨inputBuffer input around.behind, around.position⟩ 0 around.args1 outcomes
  | .pipeCommand input pipePos =>
    executePipeCommand ⟨inputBuffer input around.behind, around.position⟩ 0 pipePos around.args1
      around.args2 outcomes

/-- Every array handed to `execvp` starts with the name of a program. -/
def Dispatch.NamesPrograms (d : Dispatch) : Prop :=
  ∀ around outcomes, ∃ execs, d.execvps around outcomes = some execs ∧
    ∀ e ∈ execs, ∃ p, e.args[0]? = some (some p)

/-- The texts of the commands of an input. -/
def Dispatch.commands : Dispatch → List CString
  | .simpleCommand input => [input]
  | .pipeCommand input pipePos => [input.take pipePos, input.drop (pipePos + 1)]

/-! ### The inputs that main executes -/

variable {stdin input text : CString} {d : Dispatch} {m : Memory} {args : Args}

theorem nul_notMem_of_mem (hmem : text ∈ myBash stdin) : nul ∉ text := by
  obtain ⟨input, line, rest, -, rfl⟩ := exists_fgets_of_mem hmem
  intro hnul
  exact nul_notMem_cstr line ((List.takeWhile_prefix _).subset hnul)

theorem bushFix_eq_map (stdin : CString) : bushFix stdin = (myBash stdin).map dispatch := by
  rw [myBash, map_shellLoop]
  rfl

theorem dispatch_of_notMem (h : '|' ∉ input) : dispatch input = .simpleCommand input := by
  have hnone : strchr input '|' = none := by
    rw [strchr, List.findIdx?_eq_none_iff]
    intro c hc
    simpa using fun he : c = '|' => h (he ▸ hc)
  rw [dispatch, hnone]

theorem dispatch_of_mem {left right : CString} (h : '|' ∉ left) :
    dispatch (left ++ '|' :: right) = .pipeCommand (left ++ '|' :: right) left.length := by
  have hsome : strchr (left ++ '|' :: right) '|' = some left.length := by
    have hnone : left.findIdx? (· = '|') = none := by
      rw [List.findIdx?_eq_none_iff]
      intro c hc
      simpa using fun he : c = '|' => h (he ▸ hc)
    rw [strchr, List.findIdx?_append, hnone]
    simp [List.findIdx?_cons]
  rw [dispatch, hsome]

/-! ### The main result -/

/-- The array starts with a name if the text has a word. -/
theorem named_iff (h : ArgsAt m args ((words text).take (maxArgs - 1))) :
    (∃ p, args[0]? = some (some p)) ↔ ∃ c ∈ text, c ≠ ' ' := by
  have hblank : words text = [] ↔ ∀ c ∈ text, c = ' ' := words_eq_nil_iff
  cases hwords : words text with
  | nil =>
    rw [hwords] at h
    have hnull : args[0]? = some none := h.null
    constructor
    · rintro ⟨p, hp⟩
      rw [hnull] at hp
      cases hp
    · rintro ⟨c, hc, hspace⟩
      exact absurd (hblank.mp hwords c hc) hspace
  | cons w ws =>
    rw [hwords] at h
    obtain ⟨p, hp, -⟩ := h.strings 0 (by simp [maxArgs])
    refine iff_of_true ⟨p, hp⟩ ?_
    by_contra hno
    have hall : ∀ c ∈ text, c = ' ' := by simpa using hno
    rw [hblank.mpr hall] at hwords
    cases hwords

theorem namesPrograms_simpleCommand (hnul : nul ∉ input) (hlength : input.length < maxInputSize) :
    (Dispatch.simpleCommand input).NamesPrograms ↔ ∃ c ∈ input, c ≠ ' ' := by
  have hargs : ∀ around : Surroundings, ∃ m position args,
      parseArguments ⟨inputBuffer input around.behind, around.position⟩ 0 around.args1 =
        some (⟨m, position⟩, args) ∧
      ((∃ p, args[0]? = some (some p)) ↔ ∃ c ∈ input, c ≠ ' ') := by
    intro around
    obtain ⟨m, position, args, hparse, -, hargs⟩ :=
      parseArguments_spec (textAt_inputBuffer hnul around.behind) hlength around.position
        around.args1
    exact ⟨m, position, args, hparse, named_iff hargs⟩
  constructor
  · intro hall
    -- `fork` succeeds, so the program is to be run
    let around : Surroundings := ⟨[], none, .replicate maxArgs none, .replicate maxArgs none⟩
    obtain ⟨m, position, args, hparse, hiff⟩ := hargs around
    obtain ⟨execs, hexecs, hnamed⟩ := hall around ⟨true, true, true⟩
    simp only [Dispatch.execvps, executeSimpleCommand, hparse, Option.bind_eq_bind,
      Option.bind_some, if_true, Option.some_inj] at hexecs
    subst hexecs
    exact hiff.mp (hnamed _ (List.mem_singleton_self _))
  · intro hword around outcomes
    obtain ⟨m, position, args, hparse, hiff⟩ := hargs around
    have hnamed := hiff.mpr hword
    simp only [Dispatch.execvps, executeSimpleCommand, hparse, Option.bind_eq_bind,
      Option.bind_some]
    split_ifs <;> simp [hnamed]

theorem namesPrograms_pipeCommand {left right : CString} (hnul : nul ∉ left ++ '|' :: right)
    (hlength : (left ++ '|' :: right).length < maxInputSize) :
    (Dispatch.pipeCommand (left ++ '|' :: right) left.length).NamesPrograms ↔
      (∃ c ∈ left, c ≠ ' ') ∧ ∃ c ∈ right, c ≠ ' ' := by
  have hargs : ∀ around : Surroundings, ∃ m position args1 args2,
      splitPipe ⟨inputBuffer (left ++ '|' :: right) around.behind, around.position⟩ 0
        left.length around.args1 around.args2 = some (⟨m, position⟩, args1, args2) ∧
      ((∃ p, args1[0]? = some (some p)) ↔ ∃ c ∈ left, c ≠ ' ') ∧
      ((∃ p, args2[0]? = some (some p)) ↔ ∃ c ∈ right, c ≠ ' ') := by
    intro around
    obtain ⟨m, position, args1, args2, hsplit, hargs1, hargs2⟩ :=
      splitPipe_spec (textAt_inputBuffer hnul around.behind) hlength around.position
        around.args1 around.args2
    rw [zero_add] at hsplit
    exact ⟨m, position, args1, args2, hsplit, named_iff hargs1, named_iff hargs2⟩
  constructor
  · intro hall
    -- nothing fails, so both programs are to be run
    let around : Surroundings := ⟨[], none, .replicate maxArgs none, .replicate maxArgs none⟩
    obtain ⟨m, position, args1, args2, hsplit, hiff1, hiff2⟩ := hargs around
    obtain ⟨execs, hexecs, hnamed⟩ := hall around ⟨true, true, true⟩
    simp only [Dispatch.execvps, executePipeCommand, hsplit, Option.bind_eq_bind,
      Option.bind_some, Bool.true_eq_false, if_false, Option.some_inj] at hexecs
    subst hexecs
    exact ⟨hiff1.mp (hnamed _ List.mem_cons_self),
      hiff2.mp (hnamed _ (List.mem_cons_of_mem _ (List.mem_singleton_self _)))⟩
  · rintro ⟨hword1, hword2⟩ around outcomes
    obtain ⟨m, position, args1, args2, hsplit, hiff1, hiff2⟩ := hargs around
    have hnamed1 := hiff1.mpr hword1
    have hnamed2 := hiff2.mpr hword2
    simp only [Dispatch.execvps, executePipeCommand, hsplit, Option.bind_eq_bind,
      Option.bind_some]
    split_ifs <;> simp [hnamed1, hnamed2]

/-- For every standard input and every input that main takes from it and executes: in all
circumstances the arrays handed to `execvp` start with a program's name, if and only if
the text of each command has a character other than a space. -/
theorem namesPrograms_iff (hd : d ∈ bushFix stdin) :
    d.NamesPrograms ↔ ∀ text ∈ d.commands, ∃ c ∈ text, c ≠ ' ' := by
  rw [bushFix_eq_map] at hd
  obtain ⟨input, hinput, rfl⟩ := List.mem_map.mp hd
  have hnul := nul_notMem_of_mem hinput
  have hlength := length_lt_of_mem hinput
  by_cases hpipe : '|' ∈ input
  · obtain ⟨left, right, rfl, hleft⟩ := List.eq_append_cons_of_mem hpipe
    have hparts : (Dispatch.pipeCommand (left ++ '|' :: right) left.length).commands =
        [left, right] := by
      rw [Dispatch.commands, List.take_left, List.drop_append]
      simp
    rw [dispatch_of_mem hleft, namesPrograms_pipeCommand hnul hlength, hparts]
    simp
  · rw [dispatch_of_notMem hpipe, namesPrograms_simpleCommand hnul hlength, Dispatch.commands]
    simp

/-- A pipeline of two programs. -/
theorem namesPrograms_iff_pipeline :
    (Dispatch.pipeCommand "ls | wc".toList 3).NamesPrograms := by
  have hline : myBash ("ls | wc".toList ++ '\n' :: []) = _ :=
    myBash_line (by decide) (by decide) (by decide)
  have hd : Dispatch.pipeCommand "ls | wc".toList 3 ∈ bushFix "ls | wc\n".toList := by
    rw [bushFix_eq_map]
    refine List.mem_map.mpr ⟨"ls | wc".toList, ?_, by decide⟩
    exact hline ▸ List.mem_cons_self
  refine (namesPrograms_iff hd).mpr ?_
  simp [Dispatch.commands]

/-- Main lets a line of one space pass, and a pipeline without its second command; in each
the shell runs nothing as a program. -/
theorem not_namesPrograms_blank :
    (∃ d ∈ bushFix " \n".toList, ¬ d.NamesPrograms) ∧
      ∃ d ∈ bushFix "ls | \n".toList, ¬ d.NamesPrograms := by
  have hspace : myBash ([' '] ++ '\n' :: []) = _ :=
    myBash_line (by decide) (by decide) (by decide)
  have hpipe : myBash ("ls | ".toList ++ '\n' :: []) = _ :=
    myBash_line (by decide) (by decide) (by decide)
  constructor
  · refine ⟨.simpleCommand [' '], ?_, ?_⟩
    · rw [bushFix_eq_map]
      exact List.mem_map.mpr ⟨[' '], hspace ▸ List.mem_cons_self, by decide⟩
    · rw [namesPrograms_simpleCommand (by decide) (by decide)]
      simp
  · refine ⟨.pipeCommand ("ls ".toList ++ '|' :: [' ']) 3, ?_, ?_⟩
    · rw [bushFix_eq_map]
      exact List.mem_map.mpr ⟨"ls | ".toList, hpipe ▸ List.mem_cons_self, by decide⟩
    · have hiff := @namesPrograms_pipeCommand "ls ".toList [' '] (by decide) (by decide)
      intro hnamed
      exact absurd (hiff.mp hnamed).2 (by simp)

end UnixLessons.Shell

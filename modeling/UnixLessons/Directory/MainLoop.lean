import UnixLessons.Directory.Prompts
import UnixLessons.Transition.Loop

/-!
# The menu of the directory

Each round reads the number of a function and then one character, whatever it is. So text
that is no number is used up, one character in a round in which the choice of the round
before is made once more. At the end of the input nothing can be used up.

## Main results

* `ends_iff`: the menu ends if there is some input left whenever a choice is read
-/

namespace UnixLessons.Directory

open Text Linked Transition

/-- What a round finds outside: the memory that `malloc` has, which is not in use, and
what is in the arrays of a function before it reads into them. -/
structure Outside where
  malloc : Heap Abonent → Option ℕ
  fresh : ∀ heap new, malloc heap = some new → new ∉ heap
  old : Abonent

/-- `delete_abonent`. -/
def deleteFrom (s : Abonents) (old : Abonent) (stdin : Stdin) : Option (Abonents × Stdin) :=
  if s.count = 0 then some (s.print .emptyDirectory, stdin)
  else
    let (name, stdin) := prompt 9 old.name stdin
    let (secondName, stdin) := prompt 9 old.secondName stdin
    (deleteAbonent s name secondName).map (·, stdin)

/-- `search_by_name`. -/
def searchFrom (s : Abonents) (old : Abonent) (stdin : Stdin) : Option (Abonents × Stdin) :=
  if s.count = 0 then some (s.print .emptyDirectory, stdin)
  else
    let (name, stdin) := prompt 9 old.name stdin
    (searchByName s name).map (·, stdin)

/-- The variables of `main` and the rest of the input. -/
structure Menu where
  abs : Abonents
  choice : ℤ
  stdin : Stdin

/-- The start of `main`, which leaves `choice` as it is. -/
def start (choice : ℤ) (stdin : Stdin) : Menu := ⟨.init, choice, stdin⟩

/-- The function of a choice. -/
def perform (outside : Outside) (choice : ℤ) (s : Abonents) (stdin : Stdin) :
    Option (Abonents × Stdin) :=
  if choice = 1 then addFrom s (outside.malloc s.heap) outside.old stdin
  else if choice = 2 then deleteFrom s outside.old stdin
  else if choice = 3 then searchFrom s outside.old stdin
  else if choice = 4 then (displayAll s).map (·, stdin)
  else if choice = 5 then (displayAllReverse s).map (·, stdin)
  else if choice = 6 then (clearDirectory s).map (·, stdin)
  else some (s, stdin)

/-- One round of the loop in `main`; none if it is the last one. -/
def round (outside : Outside) (s : Menu) : Option Menu := do
  let (number, stdin) := scanNumber s.stdin
  -- `scanf` may have stored nothing
  let choice := number.getD s.choice
  let (abs, stdin) ← perform outside choice s.abs (getchar stdin)
  if choice = 6 then none else some ⟨abs, choice, stdin⟩

variable {outside : Outside} {s : Abonents} {l : Listing} {choice : ℤ} {stdin : Stdin} {m m' : Menu}

/-- There is no input left, and the last choice was not to end. -/
def Stuck (m : Menu) : Prop := m.stdin = [] ∧ m.choice ≠ 6

/-! ### The functions -/

theorem length_left_le (width : ℕ) (stdin : Stdin) : (left width stdin).length ≤ stdin.length := by
  have hscan := length_scanField_le width stdin
  rw [left, getchar, List.length_tail]
  omega

/-- A call that does not fail, and reads no more than there is. -/
def Goes (stdin : Stdin) (call : Option (Abonents × Stdin)) : Prop :=
  ∃ s rest, call = some (s, rest) ∧ (∃ l, Represents s l) ∧ rest.length ≤ stdin.length

theorem goes_map (op : Op) {rest : Stdin} (h : Represents s l) (hfresh : Fresh s op)
    (hrest : rest.length ≤ stdin.length) : Goes stdin ((step s op).map (·, rest)) := by
  obtain ⟨s', hstep, hrep⟩ := step_represents h hfresh
  exact ⟨s', rest, by rw [hstep, Option.map_some], ⟨_, hrep⟩, hrest⟩

theorem goes_addFrom (h : Represents s l) (outside : Outside) (stdin : Stdin) :
    Goes stdin (addFrom s (outside.malloc s.heap) outside.old stdin) := by
  have hfresh : ∀ name secondName tel,
      Fresh s (.add (outside.malloc s.heap) name secondName tel) := by
    intro name secondName tel
    cases hmalloc : outside.malloc s.heap with
    | none => trivial
    | some new => exact outside.fresh _ _ hmalloc
  have hfirst := length_left_le 9 stdin
  have hsecond := length_left_le 9 (left 9 stdin)
  have hthird := length_left_le 11 (left 9 (left 9 stdin))
  rw [addFrom_eq]
  exact goes_map (.add _ _ _ _) h (hfresh _ _ _) (hthird.trans (hsecond.trans hfirst))

theorem goes_deleteFrom (h : Represents s l) (old : Abonent) (stdin : Stdin) :
    Goes stdin (deleteFrom s old stdin) := by
  by_cases hcount : s.count = 0
  · rw [deleteFrom, if_pos hcount]
    exact ⟨_, stdin, rfl, ⟨_, h.printed [.emptyDirectory]⟩, le_rfl⟩
  · have hfirst := length_left_le 9 stdin
    have hsecond := length_left_le 9 (left 9 stdin)
    simp only [deleteFrom, if_neg hcount, prompt_left]
    exact goes_map (.delete _ _) h trivial (hsecond.trans hfirst)

theorem goes_searchFrom (h : Represents s l) (old : Abonent) (stdin : Stdin) :
    Goes stdin (searchFrom s old stdin) := by
  by_cases hcount : s.count = 0
  · rw [searchFrom, if_pos hcount]
    exact ⟨_, stdin, rfl, ⟨_, h.printed [.emptyDirectory]⟩, le_rfl⟩
  · simp only [searchFrom, if_neg hcount, prompt_left]
    exact goes_map (.search _) h trivial (length_left_le 9 stdin)

theorem goes_perform (h : Represents s l) (outside : Outside) (choice : ℤ) (stdin : Stdin) :
    Goes stdin (perform outside choice s stdin) := by
  unfold perform
  split_ifs
  · exact goes_addFrom h outside stdin
  · exact goes_deleteFrom h outside.old stdin
  · exact goes_searchFrom h outside.old stdin
  · exact goes_map .displayAll h trivial le_rfl
  · exact goes_map .displayAllReverse h trivial le_rfl
  · exact goes_map .clear h trivial le_rfl
  · exact ⟨s, stdin, rfl, ⟨l, h⟩, le_rfl⟩

/-! ### The loop -/

/-- One character is gone after the number, if there is one. -/
theorem length_getchar_scanNumber (h : stdin ≠ []) :
    (getchar (scanNumber stdin).2).length < stdin.length := by
  have hscan := length_scanNumber_le stdin
  have hpos := List.length_pos_of_ne_nil h
  rw [getchar, List.length_tail]
  omega

/-- A round goes on if the choice is not to end. -/
theorem round_eq_some :
    round outside m = some m' ↔
      m'.choice = (scanNumber m.stdin).1.getD m.choice ∧ m'.choice ≠ 6 ∧
      perform outside m'.choice m.abs (getchar (scanNumber m.stdin).2) =
        some (m'.abs, m'.stdin) := by
  simp only [round, Option.bind_eq_bind, Option.bind_eq_some_iff, Option.ite_none_left_eq_some,
    Option.some.injEq, Prod.exists]
  constructor
  · rintro ⟨abs, stdin, hperform, hchoice, rfl⟩
    exact ⟨rfl, hchoice, hperform⟩
  · rintro ⟨hread, hchoice, hperform⟩
    rw [← hread]
    exact ⟨_, _, hperform, hchoice, rfl⟩

/-- The list stays what the functions left. -/
theorem round_represents (h : ∃ l, Represents m.abs l) (hround : round outside m = some m') :
    ∃ l, Represents m'.abs l := by
  obtain ⟨l, hl⟩ := h
  obtain ⟨-, -, hperform⟩ := round_eq_some.mp hround
  obtain ⟨s, rest, hcall, hrep, -⟩ := goes_perform hl outside m'.choice _
  rw [hperform] at hcall
  obtain ⟨rfl, -⟩ := Prod.mk.inj (Option.some.inj hcall)
  exact hrep

theorem round_left (h : ∃ l, Represents m.abs l) (hstuck : ¬ Stuck m)
    (hround : round outside m = some m') : m'.stdin.length < m.stdin.length := by
  obtain ⟨l, hl⟩ := h
  obtain ⟨hchoice, hexit, hperform⟩ := round_eq_some.mp hround
  obtain ⟨s, rest, hcall, -, hrest⟩ := goes_perform hl outside m'.choice
    (getchar (scanNumber m.stdin).2)
  rw [hperform] at hcall
  obtain ⟨-, rfl⟩ := Prod.mk.inj (Option.some.inj hcall)
  by_cases hnil : m.stdin = []
  · -- then the choice is the one before, and it ends the loop
    rw [Stuck, not_and, not_not] at hstuck
    rw [hnil] at hchoice
    exact absurd (hchoice.trans (hstuck hnil)) hexit
  · exact hrest.trans_lt (length_getchar_scanNumber hnil)

theorem round_stuck (h : ∃ l, Represents m.abs l) (hstuck : Stuck m) :
    ∃ m', round outside m = some m' ∧ Stuck m' := by
  obtain ⟨l, hl⟩ := h
  obtain ⟨hnil, hexit⟩ := hstuck
  obtain ⟨s, rest, hcall, -, hrest⟩ := goes_perform hl outside m.choice []
  obtain rfl : rest = [] := List.length_eq_zero_iff.mp (Nat.le_zero.mp hrest)
  refine ⟨⟨s, m.choice, []⟩, round_eq_some.mpr ⟨?_, hexit, ?_⟩, rfl, hexit⟩
  · rw [hnil]
    rfl
  · rw [hnil]
    exact hcall

/-- The menu ends exactly if some input is left in every round; in the first one `choice`,
which nobody has set, may say that it is the last. -/
theorem ends_iff (outside : ℕ → Outside) (choice : ℤ) (stdin : Stdin) :
    Ends (fun k => round (outside k)) (start choice stdin) ↔
      ∀ k m, afterRounds (fun k => round (outside k)) k (start choice stdin) = some m →
        m.stdin ≠ [] ∨ m.choice = 6 := by
  have hkeeps : ∀ ⦃k : ℕ⦄ ⦃m m' : Menu⦄, (∃ l, Represents m.abs l) → round (outside k) m = some m' →
      ∃ l, Represents m'.abs l := fun _ _ _ => round_represents
  have hstuck : ∀ ⦃k : ℕ⦄ ⦃m : Menu⦄, (∃ l, Represents m.abs l) → Stuck m →
      ∃ m', round (outside k) m = some m' ∧ Stuck m' := fun _ _ => round_stuck
  have hleft : ∀ ⦃k : ℕ⦄ ⦃m m' : Menu⦄, (∃ l, Represents m.abs l) → ¬ Stuck m →
      round (outside k) m = some m' → m'.stdin.length < m.stdin.length := fun _ _ _ => round_left
  have hstart : ∃ l, Represents (start choice stdin).abs l := ⟨_, .init⟩
  rw [Transition.ends_iff hkeeps hstuck hleft hstart]
  refine forall₃_congr fun k m _ => ?_
  rw [Stuck, not_and_or, not_not]

end UnixLessons.Directory

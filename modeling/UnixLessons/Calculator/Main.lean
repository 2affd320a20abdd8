import UnixLessons.Text.Scanf
import UnixLessons.Transition.Loop

/-!
# The menu of the calculator

Each round reads the number of an operation and, for an operation, two operands. What is
not a number stays in the input: then the round works with the choice of the round before.

## Main results

* `ends_iff`: the menu ends if there is a number, or a sign, wherever a choice is read
-/

namespace UnixLessons.Calculator

open Text Transition

/-- What the program prints, without the menu. -/
inductive Line
  | badChoice
  | result (n : ℤ)
  | divisionByZero
deriving DecidableEq

/-- The choice of the last round, the rest of the input and the output so far. -/
structure Menu where
  choice : ℤ
  stdin : Stdin
  out : List Line

/-- An `int` after an overflow. -/
def wrap (n : ℤ) : ℤ := n.bmod (2 ^ 32)

def add (num1 num2 : ℤ) : Option Line := some (.result (wrap (num1 + num2)))

def sub (num1 num2 : ℤ) : Option Line := some (.result (wrap (num1 - num2)))

def mul (num1 num2 : ℤ) : Option Line := some (.result (wrap (num1 * num2)))

/-- The quotient that does not fit an `int` kills the process. -/
def div (num1 num2 : ℤ) : Option Line :=
  if num2 = 0 then some .divisionByZero
  else if num1 = -2 ^ 31 ∧ num2 = -1 then none
  else some (.result (num1.tdiv num2))

/-- The operation of a choice. -/
def operation (choice : ℤ) : ℤ → ℤ → Option Line :=
  if choice = 1 then add
  else if choice = 2 then sub
  else if choice = 3 then mul
  else div

/-- The start of `main`. -/
def start (stdin : Stdin) : Menu := ⟨0, stdin, []⟩

/-- One round of the loop in `main`; none if it is the last one. An operand that cannot be
read is 0. -/
def round (s : Menu) : Option Menu :=
  let (number, stdin) := scanNumber s.stdin
  -- `scanf` may have stored nothing
  let choice := number.getD s.choice
  if choice < 1 ∨ 5 < choice then some ⟨choice, stdin, s.out ++ [.badChoice]⟩
  else if choice = 5 then none
  else
    let (num1, stdin) := scanNumber stdin
    let (num2, stdin) := scanNumber stdin
    (operation choice (num1.getD 0) (num2.getD 0)).map fun line => ⟨choice, stdin, s.out ++ [line]⟩

variable {s t : Menu}

/-- No number comes next, and what is there is not skipped either. -/
def Stuck (s : Menu) : Prop := ¬ NumberNext s.stdin

theorem round_choice (h : round s = some t) : t.choice ≠ 5 := by
  simp only [round] at h
  split at h
  · rename_i hbad
    rw [← Option.some.inj h]
    simp only
    omega
  · split at h
    · cases h
    · rename_i hexit
      obtain ⟨line, -, rfl⟩ := Option.map_eq_some_iff.mp h
      exact hexit

theorem round_left (hnext : NumberNext s.stdin) (h : round s = some t) :
    t.stdin.length < s.stdin.length := by
  have hless := length_scanNumber_lt hnext
  simp only [round] at h
  split at h
  · rw [← Option.some.inj h]
    exact hless
  · split at h
    · cases h
    · obtain ⟨line, -, rfl⟩ := Option.map_eq_some_iff.mp h
      have hfirst := length_scanNumber_le (scanNumber s.stdin).2
      have hsecond := length_scanNumber_le (scanNumber (scanNumber s.stdin).2).2
      simp only
      omega

/-- Nothing is read, and the same choice is made once more. -/
theorem round_stuck (hchoice : s.choice ≠ 5) (h : Stuck s) : ∃ t, round s = some t ∧ Stuck t := by
  have hscan := scanNumber_of_not h
  have hagain : ¬ NumberNext (skipSpace s.stdin) := mt numberNext_skipSpace.mp h
  have hscan' := scanNumber_of_not hagain
  rw [skipSpace_skipSpace] at hscan'
  have hoperation : ∃ line, operation s.choice 0 0 = some line := by
    unfold operation
    split_ifs <;> exact ⟨_, rfl⟩
  obtain ⟨line, hline⟩ := hoperation
  simp only [round, hscan, hscan', Option.getD_none, hchoice, if_false, hline, Option.map_some]
  split
  · exact ⟨_, rfl, hagain⟩
  · exact ⟨_, rfl, hagain⟩

/-- The menu ends exactly if a number or a sign comes next in every round. -/
theorem ends_iff (stdin : Stdin) :
    Ends (fun _ => round) (start stdin) ↔
      ∀ k s, afterRounds (fun _ => round) k (start stdin) = some s → NumberNext s.stdin := by
  have hkeeps : ∀ ⦃_k : ℕ⦄ ⦃s t : Menu⦄, s.choice ≠ 5 → round s = some t → t.choice ≠ 5 :=
    fun _ _ _ _ h => round_choice h
  have hstuck : ∀ ⦃_k : ℕ⦄ ⦃s : Menu⦄, s.choice ≠ 5 → Stuck s → ∃ t, round s = some t ∧ Stuck t :=
    fun _ _ => round_stuck
  have hleft : ∀ ⦃_k : ℕ⦄ ⦃s t : Menu⦄, s.choice ≠ 5 → ¬ Stuck s → round s = some t →
      t.stdin.length < s.stdin.length :=
    fun _ _ _ _ hnext h => round_left (not_not.mp hnext) h
  have hstart : (start stdin).choice ≠ 5 := by
    change (0 : ℤ) ≠ 5
    decide
  have hiff := Transition.ends_iff hkeeps hstuck hleft hstart
  simpa only [Stuck, not_not] using hiff

end UnixLessons.Calculator

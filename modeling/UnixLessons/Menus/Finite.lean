import UnixLessons.ArrayDirectory.Interface
import UnixLessons.Calculator.Main
import UnixLessons.Directory.MainLoop

/-!
# Menus on a finite input

None of the menus looks at what `scanf` returns. Each has its own way of getting ahead: a
number, one character in every round, or the words that a function reads.
-/

namespace UnixLessons.Menus

open Text Transition

/-- For every input, whatever `malloc` does, uninitialised variables hold and calls make of an
array that they go beyond: the menus end exactly if they never come to a round that finds
nothing of that kind to read, or if the program is stopped behind an array. -/
theorem menus_end_iff (stdin : Stdin) (heap : ℕ → Directory.Outside)
    (stack : ℕ → ArrayDirectory.Outside) (choice number : ℤ) :
    (Ends (fun _ => Calculator.round) (Calculator.start stdin) ↔
      ∀ k s, afterRounds (fun _ => Calculator.round) k (Calculator.start stdin) = some s →
        NumberNext s.stdin) ∧
    (Ends (fun k => Directory.round (heap k)) (Directory.start choice stdin) ↔
      ∀ k s, afterRounds (fun k => Directory.round (heap k)) k
        (Directory.start choice stdin) = some s → s.stdin ≠ [] ∨ s.choice = 6) ∧
    (Ends (fun k => ArrayDirectory.round (stack k)) (ArrayDirectory.start number stdin) ↔
      (∀ k s, afterRounds (fun k => ArrayDirectory.round (stack k)) k
        (ArrayDirectory.start number stdin) = some s → ArrayDirectory.Moves s) ∨
      ∃ k s, afterRounds (fun k => ArrayDirectory.round (stack k)) k
        (ArrayDirectory.start number stdin) = some s ∧ ArrayDirectory.Stopped (stack k) s) :=
  ⟨Calculator.ends_iff stdin, Directory.ends_iff heap choice stdin,
    ArrayDirectory.ends_iff stack number stdin⟩

/-- `malloc` has no memory left. -/
def noMemory : Directory.Outside := ⟨fun _ => none, fun _ _ => nofun, Directory.blank⟩

/-- The program is stopped as soon as a call goes outside an array. -/
def zeroes : ArrayDirectory.Outside := ⟨0, ⟨[], by decide, by decide⟩, none⟩

/-- The byte behind `search_name` is the only one that is written outside, and nothing uses it. -/
def harmless : ArrayDirectory.Outside :=
  { zeroes with beyond := some ⟨ArrayDirectory.Directory.init.abonents,
      ArrayDirectory.whole_init, 0, []⟩ }

/-- Text for the calculator, a display without the choice to end, a display with text behind
it, and a search for ten characters with text behind it. -/
theorem not_menus_end :
    ¬ Ends (fun _ => Calculator.round) (Calculator.start "abc".toList) ∧
    ¬ Ends (fun _ => Directory.round noMemory) (Directory.start 0 "4\n".toList) ∧
    ¬ Ends (fun _ => ArrayDirectory.round zeroes) (ArrayDirectory.start 0 "4 abc\n".toList) ∧
    ¬ Ends (fun _ => ArrayDirectory.round harmless)
      (ArrayDirectory.start 0 "3 Abcdefghij 4 x".toList) := by
  refine ⟨fun h => ?_, fun h => ?_, ?_, ?_⟩
  · -- there is no number for the first choice
    obtain ⟨c, hc, hnumber⟩ := (Calculator.ends_iff _).mp h 0 _ rfl
    obtain rfl : 'a' = c := Option.some.inj hc
    exact absurd hnumber (by decide)
  · -- after the first round there is no input left
    rcases (Directory.ends_iff (fun _ => noMemory) _ _).mp h 1 _ rfl with hleft | hexit
    · exact hleft rfl
    · exact absurd hexit (by decide)
  · -- after the first round the text is left, and the display does not read it
    have hrounds : afterRounds (fun _ => ArrayDirectory.round zeroes) 1
        (ArrayDirectory.start 0 "4 abc\n".toList) = some ⟨.init, 4, " abc\n".toList, []⟩ := rfl
    refine ArrayDirectory.not_ends_of_sound ArrayDirectory.sound_init ?_ hrounds
    rintro (⟨c, hc, hnumber⟩ | hnone | ⟨-, hreads⟩)
    · obtain rfl : 'a' = c := Option.some.inj hc
      exact absurd hnumber (by decide)
    · exact absurd hnone (by decide)
    · exact absurd hreads (by decide)
  · -- the search goes on behind its array, and after the display the text is left
    have hrounds : afterRounds (fun _ => ArrayDirectory.round harmless) 2
        (ArrayDirectory.start 0 "3 Abcdefghij 4 x".toList) = some ⟨.init, 4, " x".toList, []⟩ :=
      rfl
    refine ArrayDirectory.not_ends_of_sound ArrayDirectory.sound_init ?_ hrounds
    rintro (⟨c, hc, hnumber⟩ | hnone | ⟨-, hreads⟩)
    · obtain rfl : 'x' = c := Option.some.inj hc
      exact absurd hnumber (by decide)
    · exact absurd hnone (by decide)
    · exact absurd hreads (by decide)

end UnixLessons.Menus

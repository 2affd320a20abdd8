import Mathlib.Data.List.Basic
import Mathlib.Order.Bounds.Basic

/-!
# Occurrences of a pattern

Where a pattern stands in a text, for lists of any kind: the text splits into what is
before the pattern, the pattern, and what is after it. A search from left to right splits
the text into what is behind it and the rest, in which the pattern may stand in front.

## Main results

* `occursAt_length_iff`: an occurrence at the split is a pattern in front of the rest
* `FirstOccurrence.found`, `FirstOccurrence.missed`: the two ways in which a search ends
-/

namespace UnixLessons.Text

variable {α : Type*} {p s before rest : List α} {i : ℕ}

/-- The pattern stands in the text at position `i`. -/
def OccursAt (p s : List α) (i : ℕ) : Prop :=
  ∃ before after, s = before ++ p ++ after ∧ before.length = i

theorem occursAt_length_iff : OccursAt p (before ++ rest) before.length ↔ p <+: rest := by
  constructor
  · rintro ⟨start, after, hs, hlength⟩
    rw [List.append_assoc] at hs
    exact ⟨after, (List.append_inj_right hs hlength.symm).symm⟩
  · rintro ⟨after, rfl⟩
    exact ⟨before, after, (List.append_assoc _ _ _).symm, rfl⟩

theorem occursAt_nil_zero : OccursAt [] s 0 := ⟨[], s, rfl, rfl⟩

/-- An occurrence does not run over the end of the text. -/
theorem OccursAt.add_length_le (h : OccursAt p s i) : i + p.length ≤ s.length := by
  obtain ⟨before, after, rfl, rfl⟩ := h
  rw [List.length_append, List.length_append]
  exact Nat.le_add_right _ _

/-- One step further, if the pattern is not in front of the rest. -/
theorem not_occursAt_of_lt_succ (hbefore : ∀ j < before.length, ¬ OccursAt p (before ++ rest) j)
    (h : ¬ p <+: rest) (hi : i < before.length + 1) : ¬ OccursAt p (before ++ rest) i := by
  rcases Nat.lt_succ_iff_lt_or_eq.mp hi with hlt | rfl
  · exact hbefore i hlt
  · exact fun hoccurs => h (occursAt_length_iff.mp hoccurs)

/-- `found` is the leftmost position of the pattern, and `none` if there is no position. -/
structure FirstOccurrence (p s : List α) (found : Option ℕ) : Prop where
  eq_some_iff : ∀ i, found = some i ↔ IsLeast {j | OccursAt p s j} i
  eq_none_iff : found = none ↔ ∀ i, ¬ OccursAt p s i

/-- A pattern in front of the rest is the first occurrence if there was none before. -/
theorem FirstOccurrence.found (hbefore : ∀ j < before.length, ¬ OccursAt p (before ++ rest) j)
    (h : p <+: rest) : FirstOccurrence p (before ++ rest) (some before.length) where
  eq_some_iff i := by
    have hleast : IsLeast {j | OccursAt p (before ++ rest) j} before.length :=
      ⟨occursAt_length_iff.mpr h, fun _ hj => not_lt.mp fun hlt => hbefore _ hlt hj⟩
    constructor
    · intro hi
      rwa [← Option.some.inj hi]
    · intro hi
      rw [hleast.unique hi]
  eq_none_iff :=
    ⟨fun hnone => (Option.some_ne_none _ hnone).elim,
      fun hnone => (hnone before.length (occursAt_length_iff.mpr h)).elim⟩

/-- A search through a text that is not empty need not look behind its last character. -/
theorem FirstOccurrence.missed (hne : s ≠ []) (hall : ∀ j < s.length, ¬ OccursAt p s j) :
    FirstOccurrence p s none := by
  have hnone : ∀ i, ¬ OccursAt p s i := by
    intro i hoccurs
    have hle := hoccurs.add_length_le
    have hi : ¬ i < s.length := fun hlt => hall i hlt hoccurs
    have hp : p = [] := List.length_eq_zero_iff.mp (by omega)
    exact hall 0 (List.length_pos_iff.mpr hne) (hp ▸ occursAt_nil_zero)
  exact ⟨fun i => ⟨nofun, fun hi => (hnone i hi.1).elim⟩, fun _ => hnone, fun _ => rfl⟩

/-- The first occurrence splits a text that is not empty in front of a character. -/
theorem FirstOccurrence.exists_split (hne : s ≠ []) (h : FirstOccurrence p s (some i)) :
    ∃ before c after, s = before ++ c :: after ∧ before.length = i ∧ p <+: c :: after ∧
      ∀ j < before.length, ¬ OccursAt p s j := by
  obtain ⟨hoccurs, hleast⟩ := (h.eq_some_iff i).mp rfl
  obtain ⟨before, after, hs, hlength⟩ := hoccurs
  have hbefore : ∀ j < before.length, ¬ OccursAt p s j := fun j hj hoccurs =>
    absurd (hleast hoccurs) (by omega)
  rw [List.append_assoc] at hs
  cases hrest : p ++ after with
  | nil =>
    -- an empty pattern stands at the start of the text already
    rw [hrest, List.append_nil] at hs
    have hp : p = [] := (List.append_eq_nil_iff.mp hrest).1
    exact (hbefore 0 (hs ▸ List.length_pos_iff.mpr hne) (hp ▸ occursAt_nil_zero)).elim
  | cons c rest =>
    exact ⟨before, c, rest, hrest ▸ hs, hlength, ⟨after, hrest⟩, hbefore⟩

end UnixLessons.Text

import Mathlib.Data.List.DropRight
import UnixLessons.Text.CString

/-!
# Words separated by spaces

The words of a text are its longest runs of characters other than a space. Spaces around a
text add no word, and a text starts with spaces and then has a first word or ends.
-/

namespace UnixLessons.Text

/-- The longest runs of characters other than a space, in order. -/
def words (s : CString) : List CString := (s.splitOn ' ').filter (· ≠ [])

/-- The text without the spaces around it. -/
def trimmed (s : CString) : CString := (s.dropWhile (· = ' ')).rdropWhile (· = ' ')

variable {s w t : CString} {k : ℕ}

theorem words_nil : words [] = [] := rfl

theorem words_space (s : CString) : words (' ' :: s) = words s := by
  rw [words, List.splitOn_eq_splitOnP, List.splitOnP_cons_eq_if_modifyHead]
  simp [words, List.splitOn_eq_splitOnP]

theorem words_spaces (k : ℕ) (s : CString) : words (List.replicate k ' ' ++ s) = words s := by
  induction k with
  | zero => rfl
  | succ k ih => rw [List.replicate_succ, List.cons_append, words_space, ih]

theorem words_word (hw : ' ' ∉ w) (hne : w ≠ []) (s : CString) :
    words (w ++ ' ' :: s) = w :: words s := by
  have hsplit : (w ++ ' ' :: s).splitOn ' ' = w :: s.splitOn ' ' := by
    rw [List.splitOn_eq_splitOnP, List.splitOn_eq_splitOnP]
    apply List.splitOnP_append_cons_of_forall_mem
    · intro c hc
      simpa using fun he : c = ' ' => hw (he ▸ hc)
    · simp
  rw [words, hsplit, List.filter_cons_of_pos (by simpa using hne), words]

theorem words_last (hw : ' ' ∉ w) (hne : w ≠ []) : words w = [w] := by
  rw [words, List.splitOn_eq_singleton hw, List.filter_cons_of_pos (by simpa using hne)]
  rfl

/-- A text is blank, or it has a first word, which a space or the end of the text follows. -/
theorem exists_word (s : CString) :
    (∃ k, s = List.replicate k ' ') ∨
    ∃ k w t, s = List.replicate k ' ' ++ (w ++ t) ∧ ' ' ∉ w ∧ w ≠ [] ∧ ∀ c ∈ t.head?, c = ' ' := by
  induction s with
  | nil => exact .inl ⟨0, rfl⟩
  | cons c s ih =>
    by_cases hc : c = ' '
    · subst hc
      rcases ih with ⟨k, rfl⟩ | ⟨k, w, t, rfl, hw⟩
      · exact .inl ⟨k + 1, rfl⟩
      · exact .inr ⟨k + 1, w, t, rfl, hw⟩
    · refine .inr ⟨0, (c :: s).takeWhile (· ≠ ' '), (c :: s).dropWhile (· ≠ ' '), ?_, ?_, ?_, ?_⟩
      · rw [List.takeWhile_append_dropWhile]
        rfl
      · intro h
        simpa using List.mem_takeWhile_imp h
      · simp [hc]
      · intro d hd
        have hstop := List.head?_dropWhile_not (fun d => decide (d ≠ ' ')) (c :: s)
        rw [hd] at hstop
        simpa using hstop

/-- The words of a text that starts with one. -/
theorem words_word_append (hw : ' ' ∉ w) (hne : w ≠ []) (ht : ∀ c ∈ t.head?, c = ' ') :
    words (w ++ t) = w :: words t := by
  cases t with
  | nil => rw [List.append_nil, words_last hw hne, words_nil]
  | cons c t =>
    obtain rfl : c = ' ' := ht c rfl
    rw [words_word hw hne, words_space]

theorem words_append_spaces (s : CString) (k : ℕ) :
    words (s ++ List.replicate k ' ') = words s := by
  induction hlength : s.length using Nat.strong_induction_on generalizing s with
  | h n ih =>
    rcases exists_word s with ⟨l, rfl⟩ | ⟨l, w, t, rfl, hw, hne, ht⟩
    · have hblank := words_spaces (l + k) []
      have hfirst := words_spaces l []
      rw [List.append_nil] at hblank hfirst
      rw [List.replicate_append_replicate, hblank, hfirst]
    · have hlt : t.length < n := by
        have := List.length_pos_of_ne_nil hne
        simp only [List.length_append] at hlength
        omega
      have hhead : ∀ c ∈ (t ++ List.replicate k ' ').head?, c = ' ' := by
        cases t with
        | nil =>
          intro c hc
          exact List.eq_of_mem_replicate (List.mem_of_mem_head? hc)
        | cons d t => exact ht
      rw [List.append_assoc, List.append_assoc, words_spaces, words_spaces,
        words_word_append hw hne hhead, words_word_append hw hne ht, ih _ hlt t rfl]

/-- Nothing but spaces is cut off. -/
theorem exists_trimmed (s : CString) :
    ∃ k l, s = List.replicate k ' ' ++ (trimmed s ++ List.replicate l ' ') ∧
      (∀ c ∈ (trimmed s ++ List.replicate l ' ').head?, c ≠ ' ') ∧
      ∀ c ∈ (trimmed s).getLast?, c ≠ ' ' := by
  have hfront : s.takeWhile (· = ' ') = List.replicate (s.takeWhile (· = ' ')).length ' ' :=
    List.eq_replicate_length.mpr fun c hc => by simpa using List.mem_takeWhile_imp hc
  have hback : (s.dropWhile (· = ' ')).rtakeWhile (· = ' ') =
      List.replicate ((s.dropWhile (· = ' ')).rtakeWhile (· = ' ')).length ' ' :=
    List.eq_replicate_length.mpr fun c hc => by simpa using List.mem_rtakeWhile_imp hc
  have hrest : trimmed s ++ (s.dropWhile (· = ' ')).rtakeWhile (· = ' ') =
      s.dropWhile (· = ' ') := List.rdropWhile_append_rtakeWhile
  refine ⟨(s.takeWhile (· = ' ')).length, ((s.dropWhile (· = ' ')).rtakeWhile (· = ' ')).length,
    ?_, ?_, ?_⟩
  · rw [← hfront, ← hback, hrest, List.takeWhile_append_dropWhile]
  · intro c hc
    rw [← hback, hrest] at hc
    have hstop := List.head?_dropWhile_not (fun d => decide (d = ' ')) s
    rw [hc] at hstop
    simpa using hstop
  · intro c hc
    obtain ⟨hne, rfl⟩ := List.mem_getLast?_eq_getLast hc
    have hlast : ¬ decide ((trimmed s).getLast hne = ' ') = true :=
      List.rdropWhile_last_not (fun d => decide (d = ' ')) _ hne
    simpa using hlast

theorem words_trimmed (s : CString) : words (trimmed s) = words s := by
  obtain ⟨k, l, hs, -⟩ := exists_trimmed s
  conv_rhs => rw [hs, words_spaces, words_append_spaces]

/-- Only a blank text has no words. -/
theorem words_eq_nil_iff : words s = [] ↔ ∀ c ∈ s, c = ' ' := by
  rcases exists_word s with ⟨k, rfl⟩ | ⟨k, w, t, rfl, hw, hne, ht⟩
  · have hblank := words_spaces k []
    rw [List.append_nil] at hblank
    simp [hblank, words_nil]
  · obtain ⟨c, hc⟩ := List.exists_mem_of_ne_nil w hne
    have hnot : ¬ ∀ c ∈ List.replicate k ' ' ++ (w ++ t), c = ' ' := by
      intro hall
      have hspace := hall c (List.mem_append_right _ (List.mem_append_left t hc))
      exact hw (hspace ▸ hc)
    simp only [words_spaces, words_word_append hw hne ht, reduceCtorEq, hnot]

end UnixLessons.Text

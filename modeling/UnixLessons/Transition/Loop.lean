import Mathlib.Data.Nat.Init

/-!
# Loops that may run for ever

A loop whose rounds depend on the state and on what is found outside it, which is given by
the number of the round. A state is stuck if the loop stays in stuck states from there on.
If something gets less in every round that is not stuck, then being stuck is the only way
not to end.
-/

namespace UnixLessons.Transition

variable {σ : Type*} {round : ℕ → σ → Option σ} {s t : σ} {k n : ℕ}

/-- The state after `k` rounds; none if the loop has ended before. -/
def afterRounds (round : ℕ → σ → Option σ) : ℕ → σ → Option σ
  | 0, s => some s
  | k + 1, s => (afterRounds round k s).bind (round k)

/-- There are finitely many rounds only. -/
def Ends (round : ℕ → σ → Option σ) (s : σ) : Prop := ∃ k, afterRounds round k s = none

theorem afterRounds_succ (h : afterRounds round k s = some t) :
    afterRounds round (k + 1) s = round k t := by
  rw [afterRounds, h, Option.bind_some]

theorem afterRounds_eq_none (h : afterRounds round k s = none) (hle : k ≤ n) :
    afterRounds round n s = none := by
  induction n, hle using Nat.le_induction with
  | base => exact h
  | succ n _ ih => rw [afterRounds, ih, Option.bind_none]

/-- What the rounds keep. -/
theorem afterRounds_keeps {inv : σ → Prop} (hkeeps : ∀ ⦃k s t⦄, inv s → round k s = some t → inv t)
    (hs : inv s) (h : afterRounds round k s = some t) : inv t := by
  induction k generalizing t with
  | zero => rwa [← Option.some.inj h]
  | succ k ih =>
    obtain ⟨u, hu, hround⟩ := Option.bind_eq_some_iff.mp h
    exact hkeeps (ih hu) hround

/-- From a stuck state there is always another round. -/
theorem exists_afterRounds {stuck : σ → Prop}
    (hstuck : ∀ ⦃k t⦄, afterRounds round k s = some t → stuck t →
      ∃ u, round k t = some u ∧ stuck u)
    (ht : stuck t) (h : afterRounds round k s = some t) (hle : k ≤ n) :
    ∃ u, afterRounds round n s = some u ∧ stuck u := by
  induction n, hle using Nat.le_induction with
  | base => exact ⟨t, h, ht⟩
  | succ n _ ih =>
    obtain ⟨u, hu, hsu⟩ := ih
    obtain ⟨v, hv, hsv⟩ := hstuck hu hsu
    exact ⟨v, (afterRounds_succ hu).trans hv, hsv⟩

theorem not_ends {stuck : σ → Prop}
    (hstuck : ∀ ⦃k t⦄, afterRounds round k s = some t → stuck t →
      ∃ u, round k t = some u ∧ stuck u)
    (ht : stuck t) (h : afterRounds round k s = some t) : ¬ Ends round s := by
  rintro ⟨n, hn⟩
  obtain ⟨u, hu, -⟩ := exists_afterRounds hstuck ht h (Nat.le_max_left k n)
  rw [afterRounds_eq_none hn (Nat.le_max_right k n)] at hu
  cases hu

/-- A loop that gets ahead in all states it comes to ends after that many rounds. -/
theorem afterRounds_eq_none_of_left {left : σ → ℕ}
    (hleft : ∀ ⦃k t u⦄, afterRounds round k s = some t → round k t = some u → left u < left t) :
    afterRounds round (left s + 1) s = none := by
  have hbound : ∀ k t, afterRounds round k s = some t → left t + k ≤ left s := by
    intro k
    induction k with
    | zero =>
      intro t ht
      rw [Option.some.inj ht]
      omega
    | succ k ih =>
      intro u hu
      obtain ⟨t, ht, hround⟩ := Option.bind_eq_some_iff.mp hu
      have hless := hleft ht hround
      have hle := ih t ht
      omega
  rw [Option.eq_none_iff_forall_ne_some]
  intro t ht
  have hle := hbound _ t ht
  omega

/-- The loop ends exactly if it never comes to a stuck state, or to a round in which it is
stopped. -/
theorem ends_iff_or {inv stuck : σ → Prop} {stops : ℕ → σ → Prop} {left : σ → ℕ}
    (hkeeps : ∀ ⦃k s t⦄, inv s → round k s = some t → inv t)
    (hstops : ∀ ⦃k s⦄, stops k s → round k s = none)
    (hstuck : ∀ ⦃k s⦄, inv s → ¬ stops k s → stuck s → ∃ t, round k s = some t ∧ stuck t)
    (hleft : ∀ ⦃k s t⦄, inv s → ¬ stuck s → round k s = some t → left t < left s) (hs : inv s) :
    Ends round s ↔ (∀ k t, afterRounds round k s = some t → ¬ stuck t) ∨
      ∃ k t, afterRounds round k s = some t ∧ stops k t := by
  constructor
  · intro hends
    by_cases hstop : ∃ k t, afterRounds round k s = some t ∧ stops k t
    · exact .inr hstop
    · refine .inl fun k t ht hst => not_ends (fun n u hu => ?_) hst ht hends
      exact hstuck (afterRounds_keeps hkeeps hs hu) fun h => hstop ⟨n, u, hu, h⟩
  · rintro (hnever | ⟨k, t, ht, hstop⟩)
    · exact ⟨left s + 1, afterRounds_eq_none_of_left fun k t u ht hround =>
        hleft (afterRounds_keeps hkeeps hs ht) (hnever k t ht) hround⟩
    · exact ⟨k + 1, (afterRounds_succ ht).trans (hstops hstop)⟩

/-- A loop that nothing stops ends exactly if it never comes to a stuck state. -/
theorem ends_iff {inv stuck : σ → Prop} {left : σ → ℕ}
    (hkeeps : ∀ ⦃k s t⦄, inv s → round k s = some t → inv t)
    (hstuck : ∀ ⦃k s⦄, inv s → stuck s → ∃ t, round k s = some t ∧ stuck t)
    (hleft : ∀ ⦃k s t⦄, inv s → ¬ stuck s → round k s = some t → left t < left s) (hs : inv s) :
    Ends round s ↔ ∀ k t, afterRounds round k s = some t → ¬ stuck t := by
  have hiff := @ends_iff_or σ round s inv stuck (fun _ _ => False) left hkeeps
    (fun _ _ hstop => hstop.elim) (fun _ _ hinv _ hst => hstuck hinv hst) hleft hs
  simpa using hiff

end UnixLessons.Transition

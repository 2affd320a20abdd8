import Mathlib.Algebra.Order.BigOperators.Group.List
import Mathlib.Algebra.Order.Ring.Nat
import UnixLessons.Transition.Run

/-!
# Runs that come to an end

If every step makes something smaller, a run has no more steps than there was to begin
with. What remains to be shown of a system that always completes its work is that it gets
stuck nowhere else.
-/

namespace UnixLessons.Transition

variable {σ α : Type*} {step : σ → α → Option σ} {s t : σ} {as : List α}
variable {inv : σ → Prop} {size : σ → ℕ}

/-- No action is enabled. -/
def Stuck (step : σ → α → Option σ) (s : σ) : Prop := ∀ a, step s a = none

/-- Each step takes at least one from the size. -/
theorem Preserved.size_add_length_le (hinv : Preserved step inv)
    (hsize : ∀ ⦃s a t⦄, inv s → step s a = some t → size t < size s) (hs : inv s)
    (hrun : Transition.run step s as = some t) : size t + as.length ≤ size s := by
  induction as generalizing s with
  | nil =>
    rw [Option.some.inj hrun]
    exact Nat.le_refl _
  | cons a as ih =>
    obtain ⟨u, hstep, hrest⟩ := run_cons_eq_some.mp hrun
    have hless := hsize hs hstep
    have hle := ih (hinv hs hstep) hrest
    rw [List.length_cons]
    omega

/-! ### Ends that stay within reach

A system whose threads may go round in circles for ever has no such size. What can be
said of it is that it never loses the way to its end: wherever it has got to, some
schedule leads there.
-/

/-- Some run from here leads to a state with the property. -/
def CanReach (step : σ → α → Option σ) (prop : σ → Prop) (s : σ) : Prop :=
  ∃ as t, run step s as = some t ∧ prop t

namespace CanReach

variable {prop prop' : σ → Prop} {a : α}

theorem here (h : prop s) : CanReach step prop s := ⟨[], s, rfl, h⟩

/-- One step first, and the rest from there. -/
theorem after (hstep : step s a = some t) (h : CanReach step prop t) : CanReach step prop s := by
  obtain ⟨as, u, hrun, hu⟩ := h
  exact ⟨a :: as, u, run_cons_eq_some.mpr ⟨t, hstep, hrun⟩, hu⟩

theorem trans (h : CanReach step prop s) (h' : ∀ t, prop t → CanReach step prop' t) :
    CanReach step prop' s := by
  obtain ⟨as, t, hrun, ht⟩ := h
  obtain ⟨bs, u, hrun', hu⟩ := h' t ht
  exact ⟨as ++ bs, u, run_append_eq_some.mpr ⟨t, hrun, hrun'⟩, hu⟩

theorem mono (h : CanReach step prop s) (h' : ∀ t, prop t → prop' t) : CanReach step prop' s :=
  h.trans fun t ht => here (h' t ht)

/-- What no step can break still holds when the run has got there. -/
theorem keeps (h : CanReach step prop s) (hinv : Preserved step inv) (hs : inv s) :
    CanReach step (fun t => inv t ∧ prop t) s := by
  obtain ⟨as, t, hrun, ht⟩ := h
  exact ⟨as, t, hrun, hinv.run hs hrun, ht⟩

/-- If from everywhere on the way some run makes the size smaller, some run leads to
the end. -/
theorem of_progress (inv : σ → Prop) (size : σ → ℕ) (hs : inv s)
    (hprogress : ∀ s, inv s →
      prop s ∨ CanReach step (fun t => inv t ∧ size t < size s) s) :
    CanReach step prop s := by
  induction hn : size s using Nat.strong_induction_on generalizing s with
  | h n ih =>
    rcases hprogress s hs with hend | hsmaller
    · exact here hend
    · apply hsmaller.trans
      intro t ht
      exact ih (size t) (hn ▸ ht.2) ht.1 rfl

end CanReach

/-! ### Sizes of systems made of parts -/

theorem sum_map_le {β : Type*} {l : List β} {f g : β → ℕ}
    (h : ∀ (j : ℕ) (z : β), l[j]? = some z → f z ≤ g z) : (l.map f).sum ≤ (l.map g).sum := by
  refine List.sum_le_sum fun z hz => ?_
  obtain ⟨j, hj⟩ := List.mem_iff_getElem?.mp hz
  exact h j z hj

/-- One part changes by no more than `b - a`, and no other part grows. -/
theorem sum_map_set_add_le {β : Type*} {l : List β} {f g : β → ℕ} {k a b : ℕ} {x y : β}
    (hx : l[k]? = some x) (hpart : f y + a ≤ g x + b)
    (hothers : ∀ j z, j ≠ k → l[j]? = some z → f z ≤ g z) :
    ((l.set k y).map f).sum + a ≤ (l.map g).sum + b := by
  induction l generalizing k with
  | nil => cases hx
  | cons z l ih =>
    cases k with
    | zero =>
      obtain rfl : z = x := Option.some.inj hx
      have hrest : (l.map f).sum ≤ (l.map g).sum :=
        sum_map_le fun j w hw => hothers (j + 1) w j.succ_ne_zero hw
      simp only [List.set_cons_zero, List.map_cons, List.sum_cons]
      omega
    | succ k =>
      have hz := hothers 0 z (Nat.succ_ne_zero k).symm rfl
      have hrest := ih hx fun j w hj hw => hothers (j + 1) w (fun h => hj (Nat.succ.inj h)) hw
      simp only [List.set_cons_succ, List.map_cons, List.sum_cons]
      omega

end UnixLessons.Transition

import Mathlib.Algebra.BigOperators.Fin
import Mathlib.Logic.Function.Basic

/-!
# Mutexes and the critical sections they guard

A family of mutexes is the map from each mutex to the thread that holds it. The
threads of a program are somewhere in their code; `place` says which mutex, if
any, guards the section a thread is in. `Guards` ties the two together, and its
rules follow a thread into a section, out of it, and along steps that neither
enter nor leave one.

## Main results

* `Guards.lock`, `Guards.unlock`: entering and leaving a section
* `Guards.unique`: no two threads are in sections of one mutex
-/

namespace UnixLessons.Threads

variable {ι θ : Type*} {m : ι → Option θ} {place : θ → Option ι} {i : ι} {t u : θ}

/-- A mutex is held by exactly the thread that is in its section. -/
def Guards (m : ι → Option θ) (place : θ → Option ι) : Prop :=
  ∀ i t, m i = some t ↔ place t = some i

namespace Guards

/-- All mutexes are free while every thread is outside. -/
theorem free : Guards (fun _ : ι => (none : Option θ)) fun _ => none := by
  simp [Guards]

theorem holder (h : Guards m place) (hin : place t = some i) : m i = some t :=
  (h i t).mpr hin

theorem outside (h : Guards m place) (hfree : m i = none) : place t ≠ some i := by
  intro hin
  rw [h.holder hin] at hfree
  cases hfree

/-- Mutual exclusion. -/
theorem unique (h : Guards m place) (ht : place t = some i) (hu : place u = some i) : t = u :=
  Option.some.inj ((h.holder ht).symm.trans (h.holder hu))

variable [DecidableEq ι] [DecidableEq θ]

/-- A thread outside every section takes a free mutex. -/
theorem lock (h : Guards m place) (hfree : m i = none) (hout : place t = none) :
    Guards (Function.update m i (some t)) (Function.update place t (some i)) := by
  intro i' t'
  by_cases hi : i' = i
  · subst hi
    by_cases ht : t' = t
    · simp [ht]
    · simpa [ht, Ne.symm ht] using h.outside hfree
  · by_cases ht : t' = t
    · subst ht
      rw [Function.update_of_ne hi, h, hout, Function.update_self]
      simp [Ne.symm hi]
    · rw [Function.update_of_ne hi, Function.update_of_ne ht, h]

/-- A thread leaves its section and gives the mutex back. -/
theorem unlock (h : Guards m place) (hin : place t = some i) :
    Guards (Function.update m i none) (Function.update place t none) := by
  intro i' t'
  by_cases ht : t' = t
  · subst ht
    by_cases hi : i' = i
    · simp [hi]
    · rw [Function.update_of_ne hi, h, hin, Function.update_self]
      simp [Ne.symm hi]
  · by_cases hi : i' = i
    · subst hi
      rw [Function.update_self, Function.update_of_ne ht]
      simpa using fun hin' => ht (h.unique hin' hin)
    · rw [Function.update_of_ne hi, Function.update_of_ne ht, h]

end Guards

end UnixLessons.Threads

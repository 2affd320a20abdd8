import Mathlib.Data.List.Induction
import Mathlib.Data.Set.Card
import Mathlib.Logic.Function.Basic

/-!
# A counter map with a bounded number of keys

The purpose of a numbering service: every registered key has a counter, a
message from a key is answered with the next value of its counter, a message
from a new key registers it if there is room, and leaving forgets the counter.
Nothing a key does shows in the counter of another.
-/

namespace UnixLessons.Counter

variable {K : Type*} {capacity : ℕ} {m : K → Option ℕ} {k : K} {c : ℕ}

/-- What a key may do. -/
inductive Event (K : Type*) where
  | message (key : K)
  | leave (key : K)

/-- The key an event comes from. -/
def Event.key : Event K → K
  | .message key => key
  | .leave key => key

/-- The keys that have a counter. -/
def registered (m : K → Option ℕ) : Set K := {k | m k ≠ none}

@[simp] theorem mem_registered : k ∈ registered m ↔ m k ≠ none := Iff.rfl

/-- The number that answers a message; `none` when the message is refused. -/
noncomputable def numberFor (capacity : ℕ) (m : K → Option ℕ) (key : K) : Option ℕ :=
  match m key with
  | some c => some (c + 1)
  | none => if (registered m).ncard < capacity then some 1 else none

theorem numberFor_of_some (h : m k = some c) : numberFor capacity m k = some (c + 1) := by
  simp [numberFor, h]

theorem numberFor_of_room (h : m k = none) (hroom : (registered m).ncard < capacity) :
    numberFor capacity m k = some 1 := by
  simp [numberFor, h, hroom]

/-- A message is refused exactly when its key is new and there is no room. -/
theorem numberFor_eq_none_iff :
    numberFor capacity m k = none ↔ m k = none ∧ capacity ≤ (registered m).ncard := by
  unfold numberFor
  cases m k with
  | some c => simp
  | none => simp

variable [DecidableEq K]

/-- The counters after an event. -/
noncomputable def next (capacity : ℕ) (m : K → Option ℕ) : Event K → K → Option ℕ
  | .message key =>
    match numberFor capacity m key with
    | some c => Function.update m key (some c)
    | none => m
  | .leave key => Function.update m key none

/-- The counters after a history of events, from the empty map. -/
noncomputable def after (capacity : ℕ) (events : List (Event K)) : K → Option ℕ :=
  events.foldl (next capacity) fun _ => none

theorem after_snoc (events : List (Event K)) (e : Event K) :
    after capacity (events ++ [e]) = next capacity (after capacity events) e := by
  simp [after]

/-- Events of other keys leave a counter alone. -/
theorem next_of_ne {e : Event K} (h : e.key ≠ k) : next capacity m e k = m k := by
  cases e with
  | message key =>
    simp only [next]
    cases numberFor capacity m key with
    | some c => exact Function.update_of_ne (Ne.symm h) _ _
    | none => rfl
  | leave key => exact Function.update_of_ne (Ne.symm h) _ _

theorem next_message_self (h : m k = some c) :
    next capacity m (.message k) k = some (c + 1) := by
  simp [next, numberFor_of_some h]

/-- As long as a registered key does not leave, its counter counts its messages,
whatever the other keys do in between. -/
theorem foldl_next_eq_count {events : List (Event K)} (hm : m k = some c)
    (hstays : ∀ e ∈ events, e ≠ .leave k) :
    events.foldl (next capacity) m k =
      some (c + events.countP fun e => match e with
        | .message key => decide (key = k)
        | .leave _ => false) := by
  induction events generalizing m c with
  | nil => simpa using hm
  | cons e events ih =>
    have hrest : ∀ e ∈ events, e ≠ .leave k := fun e he => hstays e (by simp [he])
    rw [List.foldl_cons]
    by_cases hkey : e.key = k
    · cases e with
      | message key =>
        obtain rfl : key = k := hkey
        rw [ih (next_message_self hm) hrest]
        simp
        omega
      | leave key =>
        obtain rfl : key = k := hkey
        exact absurd rfl (hstays _ (by simp))
    · rw [ih ((next_of_ne hkey).trans hm) hrest]
      cases e with
      | message key => simp [show key ≠ k from hkey]
      | leave key => simp

/-- A counter never exceeds the number of events. -/
theorem le_length_of_after {events : List (Event K)} (h : after capacity events k = some c) :
    c ≤ events.length := by
  induction events using List.reverseRecOn generalizing k c with
  | nil => simp [after] at h
  | append_singleton events e ih =>
    rw [after_snoc] at h
    rw [List.length_append, List.length_singleton]
    by_cases hkey : e.key = k
    · cases e with
      | leave key => simp [next, show key = k from hkey] at h
      | message key =>
        obtain rfl : key = k := hkey
        cases hc : after capacity events key with
        | some c' =>
          rw [next_message_self hc, Option.some_inj] at h
          have := ih hc
          omega
        | none =>
          simp only [next, numberFor, hc] at h
          split_ifs at h with hroom
          · simp only [Function.update_self, Option.some_inj] at h
            omega
          · simp [hc] at h
    · rw [next_of_ne hkey] at h
      exact (ih h).trans (Nat.le_succ _)

end UnixLessons.Counter

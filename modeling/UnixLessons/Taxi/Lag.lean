import Mathlib.Data.Rat.Floor
import UnixLessons.Taxi.Clock

/-!
# A driver that is behind its clock

A busy driver learns that its task is over at the top of its loop or when `select` times out.
At the top it counts whole seconds, so the time-out may come up to a second after `time` has
reached the end of the task, and a command that comes in between is refused although nothing
remains.

## Main result

* `agrees_iff`: the answers agree with the clock exactly if no command is handled after the end
  of the task in a round of the loop that was entered before it
-/

namespace UnixLessons.Taxi

open Text Transition

/-- The driver refuses exactly what comes before the end of its last task. Otherwise it is
available and accepts a task. -/
structure Agrees (pre : List Answer) (x : Answer) : Prop where
  refuses : SaysBusy x.handled.reply ↔ ∃ t ∈ lastTask pre, x.second < t.endTime
  serves : (∀ t ∈ lastTask pre, t.endTime ≤ x.second) →
    x.handled.reply = if x.handled.timer = none then availableText else okText
  remains : x.handled.reply ≠ busyAnswer 0

/-- An answer agrees exactly if the driver was not busy for too long. -/
theorem Recorded.agrees_iff_ahead {pre : List Answer} {x : Answer} (h : Recorded pre x) :
    Agrees pre x ↔ (x.handled.busyBefore = true → ∃ t ∈ lastTask pre, x.second < t.endTime) := by
  constructor
  · exact fun hagrees hbusy => hagrees.refuses.mp (h.saysBusy hbusy)
  · intro hahead
    cases hbusy : x.handled.busyBefore with
    | true =>
      obtain ⟨t, ht, hlt⟩ := hahead hbusy
      refine ⟨iff_of_true (h.saysBusy hbusy) ⟨t, ht, hlt⟩, fun hover => ?_, ?_⟩
      · exact absurd (hover t ht) (not_le.mpr hlt)
      -- What remains is positive, so it is not printed as `0`.
      · obtain ⟨u, hu, -, hreply⟩ := h.busy hbusy
        obtain rfl := Option.mem_unique ht hu
        rw [hreply]
        intro hzero
        have hmax := busyAnswer_injective hzero
        omega
    | false =>
      obtain ⟨hover, hreply⟩ := h.free hbusy
      refine ⟨iff_of_false (h.not_saysBusy hbusy) ?_, fun _ => hreply, fun hzero => ?_⟩
      · rintro ⟨t, ht, hlt⟩
        exact absurd (hover t ht) (not_le.mpr hlt)
      · exact h.not_saysBusy hbusy (hzero ▸ saysBusy_busyAnswer 0)

/-- The message that is to be handled next. -/
def DriverPc.message : DriverPc → Option CString
  | .handle buffer => some buffer
  | _ => none

namespace TimedDriver

variable {τ : Type*} [Ring τ] [LinearOrder τ] [FloorRing τ] {s t : TimedDriver τ}

/-- No command is handled at or after the end of the last task if this end was still ahead when
the round began. -/
def InTime (s : TimedDriver τ) : TimedAction τ → Prop
  | .go => ∀ buffer ∈ s.driver.pc.message, IsCommand buffer →
    ∀ a ∈ lastTask s.answers, ⌊s.top⌋ < a.endTime → s.second < a.endTime
  | _ => True

instance (s : TimedDriver τ) : ∀ a, Decidable (s.InTime a)
  | .go => inferInstanceAs (Decidable (∀ buffer ∈ s.driver.pc.message, _))
  | .wait _ | .send _ | .timeOut => isTrue trivial

/-- What a step adds to the answers: one, if it handles a command. -/
theorem answers_of_step {a : TimedAction τ} (hstep : step s a = some t) :
    t.answers = s.answers ∧ s.InTime a ∨
      ∃ buffer entry, a = .go ∧ s.driver.pc = .handle buffer ∧ IsCommand buffer ∧
        t.answers = s.answers ++ [⟨s.second, entry⟩] ∧ entry.busyBefore = s.driver.busy := by
  cases a with
  | wait moment =>
    obtain ⟨-, heq⟩ := Option.ite_none_right_eq_some.mp hstep
    cases heq
    exact .inl ⟨rfl, trivial⟩
  | send bytes =>
    cases hstep
    exact .inl ⟨rfl, trivial⟩
  | go =>
    change s.go = some t at hstep
    unfold go at hstep
    cases hpc : s.driver.pc with
    | handle buffer =>
      simp only [hpc] at hstep
      obtain ⟨-, heq⟩ := Option.ite_none_right_eq_some.mp hstep
      obtain ⟨d, hd, rfl⟩ := Option.map_eq_some_iff.mp heq
      cases handles hd with
      | ignored hnot =>
        refine .inl ⟨by simp [handled], fun buffer' hbuffer hcommand => ?_⟩
        rw [hpc] at hbuffer
        exact absurd (Option.some.inj hbuffer ▸ hcommand) hnot
      | refused timer hcommand hbusy =>
        exact .inr ⟨buffer, _, rfl, rfl, hcommand, by rw [handled_answer], rfl⟩
      | available hcommand hfree =>
        exact .inr ⟨buffer, _, rfl, rfl, hcommand, by rw [handled_answer], rfl⟩
      | accepted timer hcommand hfree hscan =>
        exact .inr ⟨buffer, _, rfl, rfl, hcommand, by rw [handled_answer], rfl⟩
    | start w r => simp [hpc] at hstep
    | top =>
      simp only [hpc] at hstep
      obtain ⟨-, heq⟩ := Option.ite_none_right_eq_some.mp hstep
      cases heq
      exact .inl ⟨rfl, by simp [InTime, hpc, DriverPc.message]⟩
    | select timeout =>
      simp only [hpc] at hstep
      refine .inl ⟨?_, by simp [InTime, hpc, DriverPc.message]⟩
      split at hstep
      · cases hstep
        rfl
      · obtain ⟨-, heq⟩ := Option.ite_none_left_eq_some.mp hstep
        cases heq
        rfl
    | reply text =>
      simp only [hpc] at hstep
      cases hstep
      exact .inl ⟨rfl, by simp [InTime, hpc, DriverPc.message]⟩
  | timeOut =>
    change s.timeOut = some t at hstep
    unfold timeOut at hstep
    split at hstep
    · obtain ⟨-, heq⟩ := Option.ite_none_right_eq_some.mp hstep
      cases heq
      exact .inl ⟨rfl, trivial⟩
    · cases hstep

/-- The answers keep agreeing exactly if the step is in time: in its round a driver is busy
exactly if the task was not over at the top. -/
theorem agrees_of_step [IsStrictOrderedRing τ] {a : TimedAction τ} (h : s.OnTime)
    (hstep : step s a = some t) :
    t.OnTime ∧ (Each Agrees t.answers ↔ Each Agrees s.answers ∧ s.InTime a) := by
  have ht : t.OnTime := h.step hstep
  refine ⟨ht, ?_⟩
  -- Only the handling of a command adds an answer.
  rcases answers_of_step hstep with ⟨hsame, hin⟩ | ⟨buffer, entry, rfl, hpc, hcommand, hadd, hbusy⟩
  · rw [hsame, and_iff_left hin]
  · have hrecorded : Recorded s.answers ⟨s.second, entry⟩ := by
      have hall := ht.recorded
      rw [hadd, each_concat] at hall
      exact hall.2
    -- In a round, `busy` tells whether the end was still ahead at the top.
    have hround := h.round (by rw [hpc]; trivial)
    have hin : s.InTime .go ↔
        ∀ a ∈ lastTask s.answers, ⌊s.top⌋ < a.endTime → s.second < a.endTime := by
      simp [InTime, hpc, DriverPc.message, hcommand]
    rw [hadd, each_concat, hrecorded.agrees_iff_ahead, hin, hbusy, hround]
    refine and_congr_right fun _ => ⟨fun hahead a ha htop => ?_, fun hahead ⟨a, ha, htop⟩ => ?_⟩
    · obtain ⟨b, hb, hlt⟩ := hahead ⟨a, ha, htop⟩
      rwa [Option.mem_unique ha hb]
    · exact ⟨a, ha, hahead a ha htop⟩

end TimedDriver

/-- **The clock of a driver.** In a run all answers agree with the clock exactly if no command
is handled when the task is over in a round that began before. -/
theorem agrees_iff {τ : Type*} [Ring τ] [LinearOrder τ] [IsStrictOrderedRing τ] [FloorRing τ]
    {readFd writeFd : ℕ} {now : τ} {acts : List (TimedAction τ)} {s : TimedDriver τ}
    (hrun : run TimedDriver.step (.start readFd writeFd now) acts = some s) :
    Each Agrees s.answers ↔ Along TimedDriver.step TimedDriver.InTime
      (.start readFd writeFd now) acts := by
  have hiff := along_iff (fun _ _ _ h hstep => TimedDriver.agrees_of_step h hstep)
    TimedDriver.OnTime.start hrun
  rw [hiff]
  exact and_iff_right each_nil

/-- A task of one second that is accepted in the last tenth of a second, and the next `select`. -/
def lateTask : List (TimedAction ℚ) := oneRound (.task 1) ++ [.go, .go]

/-- A question before the second is over, and another after the time-out. -/
theorem agrees_iff_lateTask :
    let acts := lateTask ++ [.send (message "STATUS".toList), .go, .go, .go, .go, .go,
      .wait (19 / 10), .timeOut] ++ oneRound .status
    ∃ s, run TimedDriver.step (.start 3 4 (9 / 10)) acts = some s ∧ Each Agrees s.answers := by
  intro acts
  obtain ⟨s, hs⟩ := Option.isSome_iff_exists.mp
    (by decide +kernel : (run TimedDriver.step (.start 3 4 (9 / 10)) acts).isSome)
  exact ⟨s, hs, (agrees_iff hs).mpr (by decide +kernel)⟩

/-- `select` waits until 1.9, and at 1.5 the task is over as `time` counts. The question that
comes then is answered with `Busy 0`. -/
theorem not_agrees_lateTask :
    (run TimedDriver.step (.start 3 4 (9 / 10))
        (lateTask ++ [.wait (3 / 2), .send (message "STATUS".toList), .go, .go, .go])).map
      (fun s => s.answers.map fun x => (x.second, x.handled.timer, x.handled.reply)) =
    some [(0, some 1, okText), (1, none, busyAnswer 0)] := by
  decide +kernel

end UnixLessons.Taxi

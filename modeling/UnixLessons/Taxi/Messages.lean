import Mathlib.Data.List.Infix
import UnixLessons.Taxi.Driver

/-!
# Commands and answers

Every text the dispatcher and a driver send each other fits into a message buffer
with its terminator, so one `read` returns it whole. A driver understands every
command it is sent, and its answer tells what happened to its status.

## Main results

* `read_message`: a message alone in a pipe is read back as the text that was sent
* `handle_answers`: a command is always answered, and as it should be
-/

namespace UnixLessons.Taxi

open Text

variable {text : CString}

/-! ### Reading a message -/

/-- A text that is sent in one message. -/
structure Sendable (text : CString) : Prop where
  length_lt : text.length < readMax
  nul_notMem : nul ∉ text

theorem read_message (h : Sendable text) :
    cstr ((message text).take readMax) = text ∧ (message text).drop readMax = [] := by
  have hlength : (message text).length ≤ readMax := by
    rw [message, List.length_append]
    exact h.length_lt
  rw [List.take_of_length_le hlength, List.drop_eq_nil_of_le hlength, message]
  refine ⟨?_, rfl⟩
  rw [cstr_append_nul, cstr_of_notMem h.nul_notMem]

theorem message_ne_nil : message text ≠ [] := by simp [message]

/-- A short label followed by a number is printed whole. -/
theorem sendable_label {label : CString} {i : ℤ} (hlength : label.length ≤ 100)
    (hnul : nul ∉ label) (hi : i.natAbs < 10 ^ 20) :
    snprintf bufferSize (label ++ decimal i) = label ++ decimal i ∧
      Sendable (label ++ decimal i) := by
  have hdecimal := length_decimal_le (by decide) hi
  have hsum : (label ++ decimal i).length ≤ 121 := by
    rw [List.length_append]
    omega
  refine ⟨snprintf_eq_self (by rw [bufferSize]; omega), ⟨?_, ?_⟩⟩
  · rw [readMax, bufferSize]
    omega
  · rw [List.mem_append, not_or]
    exact ⟨hnul, nul_notMem_decimal i⟩

/-! ### Commands -/

theorem natAbs_int32 (i : Int32) : i.toInt.natAbs < 10 ^ 20 := by
  have hle := i.toInt_lt
  have hge := i.le_toInt
  omega

theorem natAbs_int64 (i : Int64) : i.toInt.natAbs < 10 ^ 20 := by
  have hle := i.toInt_lt
  have hge := i.le_toInt
  omega

theorem task_text (timer : Int32) :
    (Request.task timer).text = "TASK ".toList ++ decimal timer.toInt :=
  (sendable_label (by decide) (by decide) (natAbs_int32 timer)).1

theorem request_sendable (r : Request) : Sendable r.text := by
  cases r with
  | status => exact ⟨by decide, by decide⟩
  | task timer =>
    rw [task_text]
    exact (sendable_label (by decide) (by decide) (natAbs_int32 timer)).2

/-- The time a driver finds in a task is the one that was sent. -/
theorem scanTask_text (timer : Int32) :
    scanTask (Request.task timer).text = some timer := by
  have hdrop : ("TASK ".toList ++ decimal timer.toInt).drop 4 = ' ' :: decimal timer.toInt := rfl
  have hnumeral := numeral_decimal timer.le_toInt timer.toInt_lt
  have hscan := (Numeral.blank (c := ' ') (by decide) hnumeral).scanNumber digitFree_nil
  rw [List.append_nil] at hscan
  rw [scanTask, task_text, if_pos (by simp), hdrop, hscan, Option.map_some, Int32.ofInt_toInt]

/-! ### Answers -/

theorem busyText_facts (endTime now : Int64) :
    SaysBusy (busyText endTime now) ∧ Sendable (busyText endTime now) := by
  have hlabel : "Busy ".toList.length ≤ 100 := by decide
  obtain ⟨htext, hsendable⟩ := sendable_label hlabel (by decide)
    (natAbs_int64 (if endTime - now < 0 then 0 else endTime - now))
  have hbusy : busyText endTime now = _ := htext
  rw [hbusy]
  exact ⟨by simp [SaysBusy], hsendable⟩

theorem availableText_facts : ¬ SaysBusy availableText ∧ Sendable availableText :=
  ⟨by decide, by decide, by decide⟩

theorem okText_facts : ¬ SaysBusy okText ∧ Sendable okText :=
  ⟨by decide, by decide, by decide⟩

/-- The entry of a driver's history that a command should lead to. -/
structure Answers (r : Request) (h : Handled) : Prop where
  received : h.received = r.text
  timer : ∀ timer, r = .task timer → h.timer = some timer
  sendable : Sendable h.reply
  /-- A status request changes nothing. -/
  status : r = .status → h.busyAfter = h.busyBefore
  /-- A task is refused by a busy driver only, and makes a free one busy. -/
  task : ∀ timer, r = .task timer →
    h.busyAfter = true ∧ (SaysBusy h.reply ↔ h.busyBefore = true)

/-- A command is always answered, and as it should be. -/
theorem handle_answers (d : DriverState) (r : Request) (now : Int64) :
    ∃ h d', d.handle r.text now = some d' ∧ d'.handled = d.handled ++ [h] ∧
      d'.pc = .reply h.reply ∧ Answers r h := by
  cases r with
  | status =>
    refine ⟨_, _, if_pos (by decide), rfl, rfl, rfl, by simp, ?_, fun _ => rfl, by simp⟩
    simp only
    split
    · exact (busyText_facts _ _).2
    · exact availableText_facts.2
  | task timer =>
    have hnot : ¬ "STATUS".toList.isPrefixOf (Request.task timer).text = true := by
      rw [task_text]
      simp
    have htask : "TASK".toList.isPrefixOf (Request.task timer).text = true := by
      rw [task_text]
      simp
    rw [DriverState.handle, if_neg hnot, if_pos htask, scanTask_text, Option.map_some]
    cases hbusy : d.busy with
    | true =>
      refine ⟨_, _, rfl, rfl, rfl, rfl, by simp, (busyText_facts _ _).2, by simp, ?_⟩
      simp [hbusy, (busyText_facts d.endTime now).1]
    | false =>
      refine ⟨_, _, rfl, rfl, rfl, rfl, by simp, okText_facts.2, by simp, ?_⟩
      simp [hbusy, okText_facts.1]

end UnixLessons.Taxi

import Mathlib.Algebra.Order.Floor.Ring
import UnixLessons.Taxi.Messages
import UnixLessons.Transition.Run

/-!
# The clock of a driver

A driver alone with its pipe of commands, and with the moments at which it does something.
Moments are taken from any ordered ring with a floor. Over the reals `time` returns the floor
of the moment and `select` times out some seconds after it was entered; over the integers the
moments are the values of `time` themselves.

What overflows the range of `time_t` is undefined, so no step of the model does it.

## Main results

* `tasks_apart`: a task is accepted only when the one before is over, and a refusal tells a
  time within that of the last task
-/

namespace UnixLessons.Taxi

open Text Transition

/-- What `time_t` can hold. -/
def FitsTime (n : ℤ) : Prop := -2 ^ 63 ≤ n ∧ n < 2 ^ 63

instance (n : ℤ) : Decidable (FitsTime n) := inferInstanceAs (Decidable (_ ∧ _))

/-- An answer of a driver, with the value of `time` when it was given. -/
structure Answer where
  second : ℤ
  handled : Handled
deriving DecidableEq

/-- A driver on the clock. -/
structure TimedDriver (τ : Type*) where
  driver : DriverState
  /-- What was written to the pipe and not read yet. -/
  pipe : List Char
  now : τ
  /-- When the driver was last at the top of its loop. -/
  top : τ
  /-- When it entered the `select` it is in. -/
  entered : Option τ
  answers : List Answer

inductive TimedAction (τ : Type*) where
  /-- Time passes. -/
  | wait (moment : τ)
  /-- Commands, or anything else, are written to the pipe. -/
  | send (bytes : List Char)
  /-- The driver goes on. -/
  | go
  /-- The `select` times out. -/
  | timeOut

namespace TimedDriver

variable {τ : Type*} [Ring τ] [LinearOrder τ] [FloorRing τ]

/-- A driver at the first top of its loop. -/
def start (readFd writeFd : ℕ) (now : τ) : TimedDriver τ :=
  ⟨⟨readFd, writeFd, .top, false, 0, []⟩, [], now, now, none, []⟩

/-- The value of `time`. -/
def second (s : TimedDriver τ) : ℤ := ⌊s.now⌋

/-- The clock can be read, and so can the time that remains. -/
def ClockFits (s : TimedDriver τ) : Prop :=
  FitsTime s.second ∧ (s.driver.busy = true → FitsTime (s.driver.endTime.toInt - s.second))

instance (s : TimedDriver τ) : Decidable s.ClockFits := inferInstanceAs (Decidable (_ ∧ (_ → _)))

/-- The end of a task that a free driver accepts can be computed. -/
def EndFits (s : TimedDriver τ) (buffer : CString) : Prop :=
  s.driver.busy = false → ∀ timer ∈ scanTask buffer, FitsTime (s.second + timer.toInt)

instance (s : TimedDriver τ) (buffer : CString) : Decidable (s.EndFits buffer) :=
  letI : Decidable (∀ timer ∈ scanTask buffer, FitsTime (s.second + timer.toInt)) :=
    Option.decidableForallMem _
  inferInstanceAs (Decidable (_ → _))

/-- A command was handled: what the driver has added to its history is an answer now. -/
def handled (s : TimedDriver τ) (d : DriverState) : TimedDriver τ :=
  { s with
    driver := d
    answers := s.answers ++
      (d.handled.drop s.driver.handled.length).map (Answer.mk s.second) }

/-- The next part of the loop. A `select` that was entered returns when the pipe has something
to read; whoever reads the answers never lets a write fail. -/
def go (s : TimedDriver τ) : Option (TimedDriver τ) :=
  match s.driver.pc with
  | .start _ _ => none
  | .top =>
    -- what remains is computed here, and must not overflow
    if s.ClockFits then
      some { s with
        driver := s.driver.enterSelect (Int64.ofInt s.second), top := s.now, entered := none }
    else none
  | .select _ =>
    -- the timer starts only now, some time after the remaining seconds were counted
    match s.entered with
    | none => some { s with entered := some s.now }
    | some _ =>
      if s.pipe = [] then none
      else
        some { s with
          driver := { s.driver with pc := .handle (cstr (s.pipe.take readMax)) }
          pipe := s.pipe.drop readMax, entered := none }
  | .handle buffer =>
    if s.ClockFits ∧ s.EndFits buffer then
      (s.driver.handle buffer (Int64.ofInt s.second)).map s.handled
    else none
  | .reply _ => some { s with driver := { s.driver with pc := .top } }

/-- The `select` of a busy driver times out, not before its seconds have passed and with nothing
to read. How much later is left open. -/
def timeOut (s : TimedDriver τ) : Option (TimedDriver τ) :=
  match s.driver.pc, s.entered with
  | .select (some seconds), some moment =>
    -- `ret == 0`: at that moment nothing could be read
    if s.pipe = [] ∧ moment + (seconds.toInt : τ) ≤ s.now then
      some { s with driver := s.driver.timedOut, entered := none }
    else none
  | _, _ => none

def step (s : TimedDriver τ) : TimedAction τ → Option (TimedDriver τ)
  | .wait moment => if s.now ≤ moment then some { s with now := moment } else none
  | .send bytes => some { s with pipe := s.pipe ++ bytes }
  | .go => s.go
  | .timeOut => s.timeOut

end TimedDriver

/-! ### Answers -/

/-- A task that was answered with `OK`. -/
structure Task where
  start : ℤ
  timer : ℤ

def Task.endTime (t : Task) : ℤ := t.start + t.timer

/-- The task an answer has accepted. -/
def Answer.task (x : Answer) : Option Task :=
  if x.handled.reply = okText then x.handled.timer.map fun t => ⟨x.second, t.toInt⟩ else none

/-- The tasks accepted, in order. -/
def tasks (answers : List Answer) : List Task := answers.filterMap Answer.task

def lastTask (answers : List Answer) : Option Task := (tasks answers).getLast?

/-- A refusal with the seconds that remain. -/
def busyAnswer (n : ℤ) : CString := "Busy ".toList ++ decimal n

/-- Every answer is related to those before it. -/
def Each (P : List Answer → Answer → Prop) (answers : List Answer) : Prop :=
  ∀ pre x, pre ++ [x] <+: answers → P pre x

theorem each_nil {P : List Answer → Answer → Prop} : Each P [] := by
  intro pre x h
  exact absurd (List.prefix_nil.mp h) (by simp)

theorem each_concat {P : List Answer → Answer → Prop} {answers : List Answer} {x : Answer} :
    Each P (answers ++ [x]) ↔ Each P answers ∧ P answers x := by
  constructor
  · intro h
    exact ⟨fun pre y hy => h pre y (hy.trans (List.prefix_append _ _)), h answers x List.prefix_rfl⟩
  · rintro ⟨h, hx⟩ pre y hy
    rcases List.prefix_concat_iff.mp hy with heq | hy
    · obtain ⟨rfl, hxy⟩ := List.append_inj' heq rfl
      exact List.singleton_inj.mp hxy ▸ hx
    · exact h pre y hy

theorem Each.mono {P Q : List Answer → Answer → Prop} {answers : List Answer}
    (h : Each P answers) (hPQ : ∀ pre x, P pre x → Q pre x) : Each Q answers :=
  fun pre x hx => hPQ pre x (h pre x hx)

theorem tasks_concat_none {answers : List Answer} {x : Answer} (h : x.task = none) :
    tasks (answers ++ [x]) = tasks answers := by
  simp [tasks, h]

theorem tasks_concat_some {answers : List Answer} {x : Answer} {t : Task} (h : x.task = some t) :
    tasks (answers ++ [x]) = tasks answers ++ [t] := by
  simp [tasks, h]

/-! ### What a driver does with a message -/

/-- The messages a driver answers. -/
def IsCommand (buffer : CString) : Prop :=
  "STATUS".toList.isPrefixOf buffer = true ∨ "TASK".toList.isPrefixOf buffer = true

instance (buffer : CString) : Decidable (IsCommand buffer) :=
  inferInstanceAs (Decidable (_ ∨ _))

theorem toInt_ofInt {n : ℤ} (h : FitsTime n) : (Int64.ofInt n).toInt = n :=
  Int64.toInt_ofInt_of_le h.1 h.2

theorem toInt_sub {m : Int64} {n : ℤ} (hn : FitsTime n) (h : FitsTime (m.toInt - n)) :
    (m - Int64.ofInt n).toInt = m.toInt - n := by
  rw [Int64.toInt_sub, toInt_ofInt hn]
  exact Int.bmod_eq_of_le (by have := h.1; omega) (by have := h.2; omega)

theorem toInt_add {n : ℤ} {t : Int32} (hn : FitsTime n) (h : FitsTime (n + t.toInt)) :
    (Int64.ofInt n + t.toInt64).toInt = n + t.toInt := by
  rw [Int64.toInt_add, toInt_ofInt hn, Int32.toInt_toInt64]
  exact Int.bmod_eq_of_le (by have := h.1; omega) (by have := h.2; omega)

theorem busyText_eq {m : Int64} {n : ℤ} (hn : FitsTime n) (h : FitsTime (m.toInt - n)) :
    busyText m (Int64.ofInt n) = busyAnswer (max (m.toInt - n) 0) := by
  have hlabel : "Busy ".toList.length ≤ 100 := by decide
  have htext : busyText m (Int64.ofInt n) =
      busyAnswer (if m - Int64.ofInt n < 0 then 0 else m - Int64.ofInt n).toInt :=
    (sendable_label hlabel (by decide) (natAbs_int64 _)).1
  have hremaining : (if m - Int64.ofInt n < 0 then 0 else m - Int64.ofInt n).toInt =
      max (m.toInt - n) 0 := by
    split
    · rename_i hneg
      rw [Int64.lt_iff_toInt_lt, toInt_sub hn h, Int64.toInt_zero] at hneg
      rw [Int64.toInt_zero, max_eq_right hneg.le]
    · rename_i hneg
      rw [Int64.lt_iff_toInt_lt, toInt_sub hn h, Int64.toInt_zero, not_lt] at hneg
      rw [toInt_sub hn h, max_eq_left hneg]
  rw [htext, hremaining]

/-- What a message leads to. -/
inductive Handles (d : DriverState) (buffer : CString) (now : Int64) : DriverState → Prop
  /-- Something that is no command. -/
  | ignored (not_command : ¬ IsCommand buffer) : Handles d buffer now { d with pc := .top }
  | refused (timer : Option Int32) (command : IsCommand buffer) (busy : d.busy = true) :
    Handles d buffer now (d.answer buffer timer true d.endTime (busyText d.endTime now))
  | available (command : IsCommand buffer) (free : d.busy = false) :
    Handles d buffer now (d.answer buffer none false d.endTime availableText)
  | accepted (timer : Int32) (command : IsCommand buffer) (free : d.busy = false)
    (scanned : scanTask buffer = some timer) :
    Handles d buffer now (d.answer buffer (some timer) true (now + timer.toInt64) okText)

theorem handles {d d' : DriverState} {buffer : CString} {now : Int64}
    (h : d.handle buffer now = some d') : Handles d buffer now d' := by
  unfold DriverState.handle at h
  split at h
  · rename_i hstatus
    have hcommand : IsCommand buffer := .inl hstatus
    cases h
    cases hbusy : d.busy with
    | true => exact .refused none hcommand hbusy
    | false => exact .available hcommand hbusy
  · rename_i hstatus
    split at h
    · rename_i htask
      have hcommand : IsCommand buffer := .inr htask
      obtain ⟨timer, hscan, rfl⟩ := Option.map_eq_some_iff.mp h
      split
      · rename_i hbusy
        exact .refused (some timer) hcommand hbusy
      · rename_i hbusy
        exact .accepted timer hcommand (by simpa using hbusy) hscan
    · rename_i htask
      cases h
      exact .ignored fun hcommand => hcommand.elim hstatus htask

/-! ### A driver on the clock -/

/-- What is true of an answer, given those before it: a refusal tells what remains of the last
task, and a driver that is free has no task that is not over. -/
structure Recorded (pre : List Answer) (x : Answer) : Prop where
  busy : x.handled.busyBefore = true → ∃ t ∈ lastTask pre, t.start ≤ x.second ∧
    x.handled.reply = busyAnswer (max (t.endTime - x.second) 0)
  free : x.handled.busyBefore = false → (∀ t ∈ lastTask pre, t.endTime ≤ x.second) ∧
    x.handled.reply = if x.handled.timer = none then availableText else okText

/-- Behind the top of the loop, before the answer. -/
def DriverPc.InRound : DriverPc → Prop
  | .select _ | .handle _ => True
  | _ => False

namespace TimedDriver

variable {τ : Type*} [Ring τ] [LinearOrder τ] [FloorRing τ] {s t : TimedDriver τ}

structure OnTime (s : TimedDriver τ) : Prop where
  top_le : s.top ≤ s.now
  entered : ∀ moment ∈ s.entered, s.top ≤ moment
  apart : (tasks s.answers).Pairwise fun a b => a.endTime ≤ b.start
  started : ∀ a ∈ tasks s.answers, a.start ≤ s.second
  busy : s.driver.busy = true → ∃ a ∈ lastTask s.answers, s.driver.endTime.toInt = a.endTime
  free : s.driver.busy = false → ∀ a ∈ lastTask s.answers, a.endTime ≤ s.second
  /-- In a round the driver is busy exactly if its last task was not over at the top. -/
  round : s.driver.pc.InRound →
    (s.driver.busy = true ↔ ∃ a ∈ lastTask s.answers, ⌊s.top⌋ < a.endTime)
  timer : ∀ seconds, s.driver.pc = .select (some seconds) →
    s.driver.busy = true ∧ seconds.toInt = s.driver.endTime.toInt - ⌊s.top⌋
  recorded : Each Recorded s.answers

theorem OnTime.start {readFd writeFd : ℕ} {now : τ} : (start readFd writeFd now).OnTime where
  top_le := le_rfl
  entered := by simp [TimedDriver.start]
  apart := .nil
  started := by simp [TimedDriver.start, tasks]
  busy := by simp [TimedDriver.start]
  free := by simp [TimedDriver.start, lastTask, tasks]
  round := False.elim
  timer := by simp [TimedDriver.start]
  recorded := each_nil

theorem handled_answer {received reply : CString} {timer : Option Int32} {busy : Bool}
    {endTime : Int64} :
    s.handled (s.driver.answer received timer busy endTime reply) =
      { s with
        driver := s.driver.answer received timer busy endTime reply
        answers := s.answers ++ [⟨s.second, received, timer, s.driver.busy, busy, reply⟩] } := by
  simp [handled, DriverState.answer]

namespace OnTime

/-- All tasks are over when the last one is. -/
theorem endTime_le (h : s.OnTime) (hfree : s.driver.busy = false) :
    ∀ a ∈ tasks s.answers, a.endTime ≤ s.second := by
  intro a ha
  -- The earlier tasks were over when the last one was accepted.
  obtain ⟨earlier, last, hlast⟩ := List.eq_nil_or_concat _ |>.resolve_left (List.ne_nil_of_mem ha)
  have hover : last.endTime ≤ s.second := h.free hfree last (by simp [lastTask, hlast])
  have hapart := h.apart
  rw [hlast, List.concat_eq_append, List.pairwise_append] at hapart
  rw [hlast, List.concat_eq_append, List.mem_append, List.mem_singleton] at ha
  rcases ha with ha | rfl
  · have hstarted : last.start ≤ s.second := h.started last (by simp [hlast])
    exact (hapart.2.2 a ha last (List.mem_singleton_self last)).trans hstarted
  · exact hover

theorem wait [IsStrictOrderedRing τ] (h : s.OnTime) {moment : τ} (hle : s.now ≤ moment) :
    OnTime { s with now := moment } := by
  have hsecond : s.second ≤ ⌊moment⌋ := Int.floor_le_floor hle
  exact ⟨h.top_le.trans hle, h.entered, h.apart, fun a ha => (h.started a ha).trans hsecond, h.busy,
    fun hfree a ha => (h.free hfree a ha).trans hsecond, h.round, h.timer, h.recorded⟩

theorem send (h : s.OnTime) {bytes : List Char} : OnTime { s with pipe := s.pipe ++ bytes } :=
  ⟨h.top_le, h.entered, h.apart, h.started, h.busy, h.free, h.round, h.timer, h.recorded⟩

/-- The top of the loop. -/
theorem enterSelect (h : s.OnTime) (hfits : s.ClockFits) :
    OnTime { s with
      driver := s.driver.enterSelect (Int64.ofInt s.second), top := s.now, entered := none } := by
  unfold DriverState.enterSelect
  cases hbusy : s.driver.busy with
  | false =>
    have hover : ¬ ∃ a ∈ lastTask s.answers, s.second < a.endTime :=
      fun ⟨a, ha, hlt⟩ => (h.free hbusy a ha).not_gt hlt
    exact ⟨le_rfl, by simp, h.apart, h.started, by simp, fun _ => h.free hbusy,
      fun _ => iff_of_false (by simp) hover, by simp, h.recorded⟩
  | true =>
    obtain ⟨last, hlast, hend⟩ := h.busy hbusy
    have hremaining := toInt_sub hfits.1 (hfits.2 hbusy)
    rw [if_pos rfl]
    dsimp only
    split
    -- The task is over, and the driver becomes free.
    · rename_i hle
      rw [Int64.le_iff_toInt_le, hremaining, Int64.toInt_zero, hend] at hle
      have hover : ∀ a ∈ lastTask s.answers, a.endTime ≤ s.second := by
        intro a ha
        rw [Option.mem_unique ha hlast]
        omega
      exact ⟨le_rfl, by simp, h.apart, h.started, by simp [DriverState.becomeFree], fun _ => hover,
        fun _ => iff_of_false (by simp [DriverState.becomeFree])
          fun ⟨a, ha, hlt⟩ => (hover a ha).not_gt hlt, by simp, h.recorded⟩
    -- It is not, and the timer is set to the seconds that remain.
    · rename_i hle
      rw [Int64.le_iff_toInt_le, hremaining, Int64.toInt_zero, hend, not_le] at hle
      have hahead : s.second < last.endTime := by omega
      refine ⟨le_rfl, by simp, h.apart, h.started, fun _ => ⟨last, hlast, hend⟩, by simp,
        fun _ => iff_of_true rfl ⟨last, hlast, hahead⟩, ?_, h.recorded⟩
      rintro seconds ⟨⟩
      exact ⟨rfl, hremaining⟩

/-- `select` is entered. -/
theorem enter (h : s.OnTime) : OnTime { s with entered := some s.now } := by
  refine ⟨h.top_le, ?_, h.apart, h.started, h.busy, h.free, h.round, h.timer, h.recorded⟩
  rintro moment ⟨⟩
  exact h.top_le

/-- A message is read. -/
theorem read (h : s.OnTime) {timeout : Option Int64} (hpc : s.driver.pc = .select timeout)
    {buffer : CString} {rest : List Char} :
    OnTime { s with
      driver := { s.driver with pc := .handle buffer }, pipe := rest, entered := none } :=
  ⟨h.top_le, by simp, h.apart, h.started, h.busy, h.free,
    fun _ => h.round (by rw [hpc]; trivial), by simp, h.recorded⟩

/-- A round ends. -/
theorem backToTop (h : s.OnTime) : OnTime { s with driver := { s.driver with pc := .top } } :=
  ⟨h.top_le, h.entered, h.apart, h.started, h.busy, h.free, False.elim, by simp, h.recorded⟩

/-- An answer that accepts no task. -/
theorem answer (h : s.OnTime) {received reply : CString} {timer : Option Int32} {busy : Bool}
    (hbusy : busy = s.driver.busy) (hreply : reply ≠ okText)
    (hrecorded : Recorded s.answers ⟨s.second, received, timer, s.driver.busy, busy, reply⟩) :
    (s.handled (s.driver.answer received timer busy s.driver.endTime reply)).OnTime := by
  rw [handled_answer]
  have htask : Answer.task ⟨s.second, received, timer, s.driver.busy, busy, reply⟩ = none :=
    if_neg hreply
  have htasks : tasks (s.answers ++ [_]) = tasks s.answers := tasks_concat_none htask
  have hlast : lastTask (s.answers ++ [_]) = lastTask s.answers := congrArg List.getLast? htasks
  subst hbusy
  refine ⟨h.top_le, h.entered, htasks ▸ h.apart, htasks ▸ h.started, ?_, ?_, False.elim,
    by simp [DriverState.answer], each_concat.mpr ⟨h.recorded, hrecorded⟩⟩
  · intro hbusy
    rw [hlast]
    exact h.busy hbusy
  · intro hfree
    rw [hlast]
    exact h.free hfree

/-- A task is accepted. -/
theorem accept (h : s.OnTime) (hfits : s.ClockFits) {buffer : CString} (hend : s.EndFits buffer)
    {timer : Int32} (hfree : s.driver.busy = false) (hscan : scanTask buffer = some timer) :
    (s.handled (s.driver.answer buffer (some timer) true
      (Int64.ofInt s.second + timer.toInt64) okText)).OnTime := by
  rw [handled_answer]
  have htask : Answer.task ⟨s.second, buffer, some timer, s.driver.busy, true, okText⟩ =
      some ⟨s.second, timer.toInt⟩ := if_pos rfl
  have htasks : tasks (s.answers ++ [_]) = tasks s.answers ++ [_] := tasks_concat_some htask
  have hlast : lastTask (s.answers ++ [_]) = some ⟨s.second, timer.toInt⟩ :=
    (congrArg List.getLast? htasks).trans List.getLast?_concat
  refine ⟨h.top_le, h.entered, ?_, ?_, ?_, by simp [DriverState.answer], False.elim,
    by simp [DriverState.answer], each_concat.mpr ⟨h.recorded, ?_⟩⟩
  -- A free driver has no task that is not over.
  · dsimp only
    rw [htasks, List.pairwise_append]
    refine ⟨h.apart, List.pairwise_singleton _ _, ?_⟩
    intro a ha b hb
    rw [List.mem_singleton.mp hb]
    exact h.endTime_le hfree a ha
  · dsimp only
    rw [htasks]
    intro a ha
    rcases List.mem_append.mp ha with ha | ha
    · exact h.started a ha
    · rw [List.mem_singleton.mp ha]
      exact le_rfl
  · intro _
    exact ⟨_, hlast, toInt_add hfits.1 (hend hfree timer hscan)⟩
  · exact ⟨by simp [hfree], fun _ => ⟨h.free hfree, rfl⟩⟩

/-- A message is handled. -/
theorem handle (h : s.OnTime) (hfits : s.ClockFits) {buffer : CString} (hend : s.EndFits buffer)
    {d : DriverState} (hd : s.driver.handle buffer (Int64.ofInt s.second) = some d) :
    (s.handled d).OnTime := by
  cases handles hd with
  | ignored =>
    have hnothing : s.handled { s.driver with pc := .top } =
        { s with driver := { s.driver with pc := .top } } := by
      simp [handled]
    rw [hnothing]
    exact h.backToTop
  | refused timer hcommand hbusy =>
    -- The end time is that of the last task, and it was accepted before.
    obtain ⟨last, hlast, hends⟩ := h.busy hbusy
    have hstarted : last.start ≤ s.second := h.started last (List.mem_of_getLast? hlast)
    have htext := busyText_eq hfits.1 (hfits.2 hbusy)
    refine h.answer hbusy.symm ?_ ⟨fun _ => ⟨last, hlast, hstarted, ?_⟩, by simp [hbusy]⟩
    · intro hok
      exact okText_facts.1 (hok ▸ (busyText_facts _ _).1)
    · rw [← hends]
      exact htext
  | available hcommand hfree =>
    exact h.answer hfree.symm (by decide)
      ⟨by simp [hfree], fun _ => ⟨h.free hfree, rfl⟩⟩
  | accepted timer hcommand hfree hscan => exact h.accept hfits hend hfree hscan

/-- A time-out comes when the task is over, since `select` was entered after the top. -/
theorem timeOut [IsStrictOrderedRing τ] (h : s.OnTime) {seconds : Int64} {moment : τ}
    (hpc : s.driver.pc = .select (some seconds)) (hentered : s.entered = some moment)
    (hlate : moment + (seconds.toInt : τ) ≤ s.now) :
    OnTime { s with driver := s.driver.timedOut, entered := none } := by
  obtain ⟨hbusy, hseconds⟩ := h.timer seconds hpc
  obtain ⟨last, hlast, hend⟩ := h.busy hbusy
  -- The seconds were counted at the top and `select` was entered after it.
  have hover : last.endTime ≤ s.second := by
    have htop : ⌊s.top⌋ ≤ ⌊moment⌋ := Int.floor_le_floor (h.entered moment hentered)
    have hnow : ⌊moment⌋ + seconds.toInt ≤ s.second := by
      rw [← Int.floor_add_intCast]
      exact Int.floor_le_floor hlate
    omega
  refine ⟨h.top_le, by simp, h.apart, h.started, by simp [DriverState.timedOut,
    DriverState.becomeFree], ?_, False.elim, by simp [DriverState.timedOut], h.recorded⟩
  intro _ a ha
  rw [Option.mem_unique ha hlast]
  exact hover

theorem step [IsStrictOrderedRing τ] (h : s.OnTime) {a : TimedAction τ}
    (hstep : TimedDriver.step s a = some t) : t.OnTime := by
  cases a with
  | wait moment =>
    obtain ⟨hle, heq⟩ := Option.ite_none_right_eq_some.mp hstep
    cases heq
    exact h.wait hle
  | send bytes =>
    cases hstep
    exact h.send
  | go =>
    change s.go = some t at hstep
    unfold go at hstep
    cases hpc : s.driver.pc with
    | start w r => simp [hpc] at hstep
    | top =>
      simp only [hpc] at hstep
      obtain ⟨hfits, heq⟩ := Option.ite_none_right_eq_some.mp hstep
      cases heq
      exact h.enterSelect hfits
    | select timeout =>
      simp only [hpc] at hstep
      split at hstep
      · cases hstep
        exact h.enter
      · obtain ⟨-, heq⟩ := Option.ite_none_left_eq_some.mp hstep
        cases heq
        exact h.read hpc
    | handle buffer =>
      simp only [hpc] at hstep
      obtain ⟨⟨hfits, hend⟩, heq⟩ := Option.ite_none_right_eq_some.mp hstep
      obtain ⟨d, hd, rfl⟩ := Option.map_eq_some_iff.mp heq
      exact h.handle hfits hend hd
    | reply text =>
      simp only [hpc] at hstep
      cases hstep
      exact h.backToTop
  | timeOut =>
    change s.timeOut = some t at hstep
    unfold TimedDriver.timeOut at hstep
    split at hstep
    · rename_i seconds moment hpc hentered
      obtain ⟨⟨-, hlate⟩, heq⟩ := Option.ite_none_right_eq_some.mp hstep
      cases heq
      exact h.timeOut hpc hentered hlate
    · cases hstep

end OnTime

theorem OnTime.run [IsStrictOrderedRing τ] {readFd writeFd : ℕ} {now : τ}
    {acts : List (TimedAction τ)}
    (hrun : run TimedDriver.step (TimedDriver.start readFd writeFd now) acts = some s) :
    s.OnTime :=
  Preserved.run (fun _ _ _ h hstep => OnTime.step h hstep) OnTime.start hrun

end TimedDriver

theorem busyAnswer_injective {m n : ℤ} (h : busyAnswer m = busyAnswer n) : m = n :=
  decimal_injective (List.append_cancel_left h)

theorem saysBusy_busyAnswer (n : ℤ) : SaysBusy (busyAnswer n) := by
  simp [SaysBusy, busyAnswer]

theorem Recorded.saysBusy {pre : List Answer} {x : Answer} (h : Recorded pre x)
    (hbusy : x.handled.busyBefore = true) : SaysBusy x.handled.reply := by
  obtain ⟨t, -, -, hreply⟩ := h.busy hbusy
  exact hreply ▸ saysBusy_busyAnswer _

theorem Recorded.not_saysBusy {pre : List Answer} {x : Answer} (h : Recorded pre x)
    (hfree : x.handled.busyBefore = false) : ¬ SaysBusy x.handled.reply := by
  rw [(h.free hfree).2]
  split
  · exact availableText_facts.1
  · exact okText_facts.1

/-- A refusal tells what remains of the last task, which is no more than its time. -/
theorem Recorded.bound {pre : List Answer} {x : Answer} (h : Recorded pre x) {n : ℤ}
    (hreply : x.handled.reply = busyAnswer n) :
    ∃ t ∈ lastTask pre, 0 ≤ n ∧ n ≤ max t.timer 0 := by
  cases hbusy : x.handled.busyBefore with
  | true =>
    obtain ⟨t, ht, hstarted, hremaining⟩ := h.busy hbusy
    have hn : n = max (t.endTime - x.second) 0 :=
      busyAnswer_injective (hreply.symm.trans hremaining)
    have hend : t.endTime = t.start + t.timer := rfl
    refine ⟨t, ht, ?_, ?_⟩ <;> omega
  | false =>
    have hsays : SaysBusy x.handled.reply := hreply ▸ saysBusy_busyAnswer n
    -- A free driver does not refuse.
    exact absurd hsays (h.not_saysBusy hbusy)

/-- **One task at a time.** When a task is accepted, all tasks accepted before are over, and the
time in a refusal is between zero and that of the task accepted last before it. -/
theorem tasks_apart {τ : Type*} [Ring τ] [LinearOrder τ] [IsStrictOrderedRing τ] [FloorRing τ]
    {readFd writeFd : ℕ} {now : τ} {acts : List (TimedAction τ)} {s : TimedDriver τ}
    (hrun : run TimedDriver.step (.start readFd writeFd now) acts = some s) :
    ((tasks s.answers).Pairwise fun a b => a.start + a.timer ≤ b.start) ∧
      Each (fun pre x => ∀ n, x.handled.reply = busyAnswer n →
        ∃ t ∈ lastTask pre, 0 ≤ n ∧ n ≤ max t.timer 0) s.answers := by
  have htimed : s.OnTime := .run hrun
  exact ⟨htimed.apart, htimed.recorded.mono fun pre x hx n => hx.bound⟩

/-- A driver at the top of its loop gets a command and answers it. -/
def oneRound {τ : Type*} (r : Request) : List (TimedAction τ) :=
  [.send (message r.text), .go, .go, .go, .go, .go]

/-- Two tasks, of one second and of a hundred, and a question during the second. -/
def twoTasks : List (TimedAction ℤ) :=
  oneRound (.task 1) ++ [.go, .go, .wait 1, .timeOut] ++ oneRound (.task 100) ++
    oneRound .status

theorem tasks_apart_twoTasks :
    ∃ s, run TimedDriver.step (.start 3 4 0) twoTasks = some s ∧
      (tasks s.answers).Pairwise fun a b => a.start + a.timer ≤ b.start := by
  obtain ⟨s, hs⟩ := Option.isSome_iff_exists.mp
    (by decide +kernel : (run TimedDriver.step (.start 3 4 0) twoTasks).isSome)
  exact ⟨s, hs, (tasks_apart hs).1⟩

/-- After the second task a third one is accepted. Between the first and the third the driver
refused with a time that is longer than that of the first. -/
theorem not_bound_earlier :
    let acts := twoTasks ++ [.go, .go, .wait 101, .timeOut] ++ oneRound (.task 1)
    (run TimedDriver.step (.start 3 4 0) acts).map (fun s => s.answers.map fun x =>
        (x.second, x.handled.timer, x.handled.reply)) =
      some [(0, some 1, okText), (1, some 100, okText), (1, none, busyAnswer 100),
        (101, some 1, okText)] ∧ ¬ (100 : ℤ) ≤ max 1 0 := by
  decide

end UnixLessons.Taxi

import UnixLessons.Text.Scanf
import UnixLessons.Processes.Descriptors

/-!
# The taxi driver

A driver is a process that reads commands from one pipe and writes its answers to
another. It is free or busy until a certain time. The functions here are the
parts of the loop of `driver_main`: what happens at its top, after a time-out and
with a message that was read. Each call of `time` has its value as an argument.
-/

namespace UnixLessons.Taxi

open Text

/-- Size of every message buffer. -/
def bufferSize : ℕ := 256

/-! ### Messages -/

/-- What the dispatcher asks a driver. -/
inductive Request
  | status
  | task (timer : Int32)
deriving DecidableEq

/-- The text of a request. -/
def Request.text : Request → CString
  | .status => "STATUS".toList
  | .task timer => snprintf bufferSize ("TASK ".toList ++ decimal timer.toInt)

/-- The bytes written for a text: it goes with its terminator. -/
def message (text : CString) : List Char := text ++ [nul]

/-- `read` with room for a terminator. -/
def readMax : ℕ := bufferSize - 1

/-- The time a task takes, as `sscanf(buffer, "TASK %d", ...)` finds it. -/
def scanTask (buffer : CString) : Option Int32 :=
  if "TASK".toList.isPrefixOf buffer then (scanNumber (buffer.drop 4)).1.map Int32.ofInt else none

/-- The refusal of a busy driver, with the seconds that remain. -/
def busyText (endTime now : Int64) : CString :=
  let remaining := endTime - now
  let remaining := if remaining < 0 then 0 else remaining
  snprintf bufferSize ("Busy ".toList ++ decimal remaining.toInt)

def availableText : CString := "Available".toList

def okText : CString := "OK".toList

/-- The answer is a refusal, as the dispatcher tells it from the others. -/
def SaysBusy (text : CString) : Prop := "Busy".toList.isPrefixOf text = true

instance (text : CString) : Decidable (SaysBusy text) := inferInstanceAs (Decidable (_ = true))

/-! ### The loop -/

/-- Where a driver is in its loop. -/
inductive DriverPc
  /-- After `fork`, with the two descriptors it has to close. -/
  | start (commandWrite replyRead : ℕ)
  | top
  | select (timeout : Option Int64)
  | handle (buffer : CString)
  | reply (text : CString)
deriving DecidableEq

/-- A command a driver has handled: the text, the time it found in it, its status
before and after, and its answer. -/
structure Handled where
  received : CString
  timer : Option Int32
  busyBefore : Bool
  busyAfter : Bool
  reply : CString
deriving DecidableEq

/-- The memory of a driver, with the history of what it handled. -/
structure DriverState where
  readFd : ℕ
  writeFd : ℕ
  pc : DriverPc
  busy : Bool
  endTime : Int64
  handled : List Handled

namespace DriverState

/-- A driver after `fork`. -/
def init (readFd writeFd commandWrite replyRead : ℕ) : DriverState :=
  ⟨readFd, writeFd, .start commandWrite replyRead, false, 0, []⟩

/-- The task is over. -/
def becomeFree (d : DriverState) : DriverState := { d with busy := false, endTime := 0 }

/-- The top of the loop: a busy driver waits for no longer than its task takes. -/
def enterSelect (d : DriverState) (now : Int64) : DriverState :=
  if d.busy then
    let remaining := d.endTime - now
    if remaining ≤ 0 then { d.becomeFree with pc := .select none }
    else { d with pc := .select (some remaining) }
  else { d with pc := .select none }

/-- The time-out of `select`. -/
def timedOut (d : DriverState) : DriverState := { d.becomeFree with pc := .top }

/-- The answer to a command, with its entry in the history. -/
def answer (d : DriverState) (received : CString) (timer : Option Int32) (busy : Bool)
    (endTime : Int64) (reply : CString) : DriverState :=
  { d with
    pc := .reply reply, busy, endTime
    handled := d.handled ++ [⟨received, timer, d.busy, busy, reply⟩] }

/-- A message is handled; `none` when the time of a task is used without having
been read. Anything but the two commands is not answered. -/
def handle (d : DriverState) (buffer : CString) (now : Int64) : Option DriverState :=
  if "STATUS".toList.isPrefixOf buffer then
    some (d.answer buffer none d.busy d.endTime
      (if d.busy then busyText d.endTime now else availableText))
  else if "TASK".toList.isPrefixOf buffer then
    (scanTask buffer).map fun taskTime =>
      if d.busy then d.answer buffer (some taskTime) true d.endTime (busyText d.endTime now)
      else d.answer buffer (some taskTime) true (now + taskTime.toInt64) okText
  else some { d with pc := .top }

/-- A later state of the loop: the descriptors are the same and nothing of the
history is lost. -/
structure Follows (d d' : DriverState) : Prop where
  readFd : d'.readFd = d.readFd
  writeFd : d'.writeFd = d.writeFd
  pc : ∀ w r, d'.pc ≠ .start w r
  handled : d.handled <+: d'.handled

theorem enterSelect_follows (d : DriverState) (now : Int64) : d.Follows (d.enterSelect now) := by
  unfold enterSelect
  split
  · dsimp only
    split <;> exact ⟨rfl, rfl, by simp, List.prefix_rfl⟩
  · exact ⟨rfl, rfl, by simp, List.prefix_rfl⟩

theorem timedOut_follows (d : DriverState) : d.Follows d.timedOut :=
  ⟨rfl, rfl, by simp [timedOut], List.prefix_rfl⟩

theorem handle_follows {d d' : DriverState} {buffer : CString} {now : Int64}
    (h : d.handle buffer now = some d') : d.Follows d' := by
  unfold handle at h
  split at h
  · cases h
    exact ⟨rfl, rfl, by simp [answer], List.prefix_append _ _⟩
  · split at h
    · obtain ⟨taskTime, -, rfl⟩ := Option.map_eq_some_iff.mp h
      split <;> exact ⟨rfl, rfl, by simp [answer], List.prefix_append _ _⟩
    · cases h
      exact ⟨rfl, rfl, by simp, List.prefix_rfl⟩

end DriverState

end UnixLessons.Taxi

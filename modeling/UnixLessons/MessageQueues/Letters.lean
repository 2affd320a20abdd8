import UnixLessons.SharedMemory.Handshake

/-!
# The letters of the queue handshake

The server sends `Hi!` and waits for a reply, and the client that has got `Hi!` replies
`Hello!`. A letter remembers who sent it, so that a letter of this run can be told from one
that an earlier run has left.
-/

namespace UnixLessons.MessageQueues

open Text
open SharedMemory (Process Writer)

/-- A text in a queue and who sent it. -/
structure Letter where
  text : CString
  writer : Writer
deriving DecidableEq

/-- A letter of an earlier run. -/
def Letter.forget (l : Letter) : Letter := { l with writer := .other }

/-- What the server sends. -/
def greeting : Letter := ⟨"Hi!".toList, .server⟩

/-- What the client sends. -/
def reply : Letter := ⟨"Hello!".toList, .client⟩

/-- What has happened in a run. -/
structure Events where
  /-- What the client has received. -/
  taken : Option Letter
  /-- What the server has received. -/
  accepted : Option Letter
  /-- The server has removed a queue. -/
  removed : Bool
deriving DecidableEq

def Events.none : Events := ⟨Option.none, Option.none, false⟩

/-- The server has accepted only the reply of this client, which has taken the greeting of this
server, and has removed no queue before that was taken. -/
structure Safe (e : Events) : Prop where
  accepted : ∀ l ∈ e.accepted, l = reply ∧ e.taken = some greeting
  removed : e.removed = true → e.taken = some greeting

namespace Safe

variable {e : Events}

theorem none : Safe .none := ⟨by simp [Events.none], by simp [Events.none]⟩

/-- Once the greeting is taken, only the reply matters. -/
theorem of_taken (htaken : e.taken = some greeting) (haccepted : ∀ l ∈ e.accepted, l = reply) :
    Safe e :=
  ⟨fun l hl => ⟨haccepted l hl, htaken⟩, fun _ => htaken⟩

theorem take (h : Safe e) : Safe { e with taken := some greeting } :=
  .of_taken rfl fun l hl => (h.accepted l hl).1

theorem accept (htaken : e.taken = some greeting) : Safe { e with accepted := some reply } :=
  .of_taken htaken fun _ hl => (Option.some.inj hl).symm

theorem remove (h : Safe e) (htaken : e.taken = some greeting) :
    Safe { e with removed := true } :=
  .of_taken htaken fun l hl => (h.accepted l hl).1

/-- An accepted letter of an earlier run, or one that came after such a letter was taken. -/
theorem not_of_other {l m : Letter} (hl : l ∈ e.accepted) (hm : m.writer = .other)
    (hlm : m = l ∨ m ∈ e.taken) : ¬ Safe e := by
  intro h
  obtain ⟨hreply, htaken⟩ := h.accepted l hl
  rcases hlm with rfl | hmem
  · rw [hreply] at hm
    cases hm
  · obtain rfl : greeting = m := Option.some.inj (htaken.symm.trans hmem)
    cases hm

end Safe

end UnixLessons.MessageQueues

import UnixLessons.Text.CString

/-!
# The handshake in shared memory

The server writes `Hi!`, and the client that has read it writes `Hello!` over it. Two
semaphores tell each process when the other has written. How the processes come by the
memory and the semaphores is different for System V and POSIX; what they do with them
is the same and stands here.

If both use the same objects and the semaphores start at zero, the two processes are one
sequential program: `Stage` is the place in it, and every step of a process is the next
stage.

## Main results

* `Stage.server_step`, `Stage.client_step`: a step leads to a stage
* `Stage.handshake`: at every stage the handshake is as it should be
-/

namespace UnixLessons.SharedMemory

open Text

/-- The two processes of a run. The interleaving is the list of who moves. -/
inductive Process where
  | server
  | client
deriving DecidableEq

/-- Who wrote a text: a process of this run, or one of an earlier run. -/
inductive Writer where
  | server
  | client
  | other
deriving DecidableEq

/-- A text in shared memory; while it is being written there is none. -/
structure Entry where
  text : Option CString
  writer : Writer
deriving DecidableEq

/-- The text of an earlier run. -/
def Entry.forget (e : Entry) : Entry := { e with writer := .other }

/-- Shared memory. A memory object has no content before it gets its size. -/
abbrev Memory := Option Entry

/-- New memory is full of zeros. -/
def zeros : Entry := ⟨some [], .other⟩

/-- What the server writes. -/
def message : Entry := ⟨some "Hi!".toList, .server⟩

/-- What the client writes. -/
def reply : Entry := ⟨some "Hello!".toList, .client⟩

/-- The memory and the two semaphores a process uses. -/
structure Channel where
  memory : Memory
  s2c : ℕ
  c2s : ℕ
deriving DecidableEq

/-- What the processes have printed as read and as received. -/
structure Outputs where
  read : Option Entry
  received : Option Entry
deriving DecidableEq

/-- Nothing has been printed. -/
def Outputs.none : Outputs := ⟨Option.none, Option.none⟩

/-- Where the server is once it has the memory and the semaphores. -/
inductive ServerAt where
  | write
  | writing
  | post
  | wait
  | print
  | done
  | killed
deriving DecidableEq

/-- Where the client is once it has the memory and the semaphores. -/
inductive ClientAt where
  | wait
  | print
  | write
  | writing
  | post
  | done
  | killed
deriving DecidableEq

/-- The server writes, posts, waits and prints. A process that uses memory without a
size is killed by `SIGBUS`. -/
def serverStep (pc : ServerAt) (ch : Channel) (out : Outputs) :
    Option (ServerAt × Channel × Outputs) :=
  match pc, ch.memory with
  | .write, some _ => some (.writing, { ch with memory := some ⟨Option.none, .server⟩ }, out)
  | .writing, some _ => some (.post, { ch with memory := some message }, out)
  | .post, _ => some (.wait, { ch with s2c := ch.s2c + 1 }, out)
  | .wait, _ => if 0 < ch.c2s then some (.print, { ch with c2s := ch.c2s - 1 }, out) else none
  | .print, some e => some (.done, ch, { out with received := some e })
  | .write, none | .writing, none | .print, none => some (.killed, ch, out)
  | .done, _ | .killed, _ => none

/-- The client waits, prints, writes and posts. -/
def clientStep (pc : ClientAt) (ch : Channel) (out : Outputs) :
    Option (ClientAt × Channel × Outputs) :=
  match pc, ch.memory with
  | .wait, _ => if 0 < ch.s2c then some (.print, { ch with s2c := ch.s2c - 1 }, out) else none
  | .print, some e => some (.write, ch, { out with read := some e })
  | .write, some _ => some (.writing, { ch with memory := some ⟨Option.none, .client⟩ }, out)
  | .writing, some _ => some (.post, { ch with memory := some reply }, out)
  | .post, _ => some (.done, { ch with c2s := ch.c2s + 1 }, out)
  | .print, none | .write, none | .writing, none => some (.killed, ch, out)
  | .done, _ | .killed, _ => none

/-- The client prints the message of this server as read, and the server prints as
received the reply of this client, which has read the message. -/
def Handshake (out : Outputs) : Prop :=
  (∀ e ∈ out.read, e = message) ∧
    ∀ e ∈ out.received, e = reply ∧ out.read = some message

instance (out : Outputs) : Decidable (Handshake out) :=
  inferInstanceAs (Decidable (_ ∧ _))

theorem handshake_none : Handshake .none := by decide

/-! ### The stages of the handshake -/

/-- The places in the sequential program, named by what has happened last. -/
inductive Stage where
  | ready (e : Entry)
  | writing
  | written
  | posted
  | taken
  | read
  | replying
  | replied
  | answered
  | woken
  | received

namespace Stage

def server : Stage → ServerAt
  | ready _ => .write
  | writing => .writing
  | written => .post
  | posted | taken | read | replying | replied | answered => .wait
  | woken => .print
  | received => .done

def client : Stage → ClientAt
  | ready _ | writing | written | posted => .wait
  | taken => .print
  | read => .write
  | replying => .writing
  | replied => .post
  | answered | woken | received => .done

def memory : Stage → Entry
  | ready e => e
  | writing => ⟨none, .server⟩
  | written | posted | taken | read => message
  | replying => ⟨none, .client⟩
  | replied | answered | woken | received => reply

/-- A semaphore is up between the post and the end of the wait. -/
def channel (σ : Stage) : Channel :=
  ⟨some σ.memory, match σ with | posted => 1 | _ => 0, match σ with | answered => 1 | _ => 0⟩

def outputs : Stage → Outputs
  | ready _ | writing | written | posted | taken => .none
  | read | replying | replied | answered | woken => ⟨some message, none⟩
  | received => ⟨some message, some reply⟩

variable {σ : Stage} {ch : Channel} {out : Outputs}

theorem server_step {pc : ServerAt}
    (hstep : serverStep σ.server σ.channel σ.outputs = some (pc, ch, out)) :
    ∃ τ : Stage, pc = τ.server ∧ ch = τ.channel ∧ out = τ.outputs ∧ σ.client = τ.client := by
  cases σ with
  | ready e =>
    cases hstep
    exact ⟨writing, rfl, rfl, rfl, rfl⟩
  | writing =>
    cases hstep
    exact ⟨written, rfl, rfl, rfl, rfl⟩
  | written =>
    cases hstep
    exact ⟨posted, rfl, rfl, rfl, rfl⟩
  | answered =>
    cases hstep
    exact ⟨woken, rfl, rfl, rfl, rfl⟩
  | woken =>
    cases hstep
    exact ⟨received, rfl, rfl, rfl, rfl⟩
  -- the semaphore of the client is down
  | posted | taken | read | replying | replied => cases hstep
  | received => cases hstep

theorem client_step {pc : ClientAt}
    (hstep : clientStep σ.client σ.channel σ.outputs = some (pc, ch, out)) :
    ∃ τ : Stage, pc = τ.client ∧ ch = τ.channel ∧ out = τ.outputs ∧ σ.server = τ.server := by
  cases σ with
  -- the semaphore of the server is down
  | ready _ | writing | written => cases hstep
  | posted =>
    cases hstep
    exact ⟨taken, rfl, rfl, rfl, rfl⟩
  | taken =>
    cases hstep
    exact ⟨read, rfl, rfl, rfl, rfl⟩
  | read =>
    cases hstep
    exact ⟨replying, rfl, rfl, rfl, rfl⟩
  | replying =>
    cases hstep
    exact ⟨replied, rfl, rfl, rfl, rfl⟩
  | replied =>
    cases hstep
    exact ⟨answered, rfl, rfl, rfl, rfl⟩
  | answered | woken | received => cases hstep

theorem handshake (σ : Stage) : Handshake σ.outputs := by
  cases σ with
  | ready _ | writing | written | posted | taken => exact handshake_none
  | read | replying | replied | answered | woken | received => decide

/-- The server is last. -/
theorem client_done (h : σ.server = .done) : σ.client = .done := by
  cases σ with
  | received => rfl
  | _ => cases h

end Stage

/-! ### Steps that go wrong -/

/-- A client that got past its semaphore reads at once what is in memory. -/
theorem clientStep_print (ch : Channel) (out : Outputs) :
    clientStep .print ch out = some (.killed, ch, out) ∨
      ∃ e, ch.memory = some e ∧
        clientStep .print ch out = some (.write, ch, { out with read := some e }) := by
  cases h : ch.memory with
  | none => exact .inl (by simp only [clientStep, h])
  | some e => exact .inr ⟨e, rfl, by simp only [clientStep, h]⟩

/-- A text of someone else is not the message. -/
theorem not_handshake_of_writer {out : Outputs} {e : Entry} (hread : out.read = some e)
    (hwriter : e.writer ≠ .server) : ¬ Handshake out := by
  intro h
  have hmessage : e = message := h.1 e hread
  rw [hmessage] at hwriter
  exact hwriter rfl

end UnixLessons.SharedMemory

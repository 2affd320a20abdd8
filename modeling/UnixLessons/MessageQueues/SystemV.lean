import Mathlib.Algebra.Order.BigOperators.Group.List
import Mathlib.Algebra.Order.Group.Nat
import UnixLessons.MessageQueues.Letters
import UnixLessons.Processes.Objects
import UnixLessons.Transition.Run

/-!
# The handshake over a System V queue

One queue for both directions: messages of type 1 go to the client and messages of type 2 to
the server. The server opens the queue with what is in it and removes it at its end. A call
fails only on a queue that was removed.

## Main results

* `Inv.run`: a run that starts with no message for anyone is safe
* `not_safe_of_message`: with such a message and room for two more, some run is not
-/

namespace UnixLessons.MessageQueues.SystemV

open Processes Transition
open SharedMemory (Process)

structure Message where
  mtype : ℤ
  letter : Letter
deriving DecidableEq

/-- A message of an earlier run. -/
def Message.forget (m : Message) : Message := { m with letter := m.letter.forget }

/-- The text is sent with its terminator. -/
def Message.size (m : Message) : ℕ := m.letter.text.length + 1

abbrev Queue := List Message

def bytes (q : Queue) : ℕ := (q.map Message.size).sum

/-- `msgsnd` waits as long as the queue would have more than `qbytes` bytes. -/
def msgsnd (qbytes : ℕ) (m : Message) (q : Queue) : Option Queue :=
  if bytes q + m.size ≤ qbytes then some (q ++ [m]) else none

/-- `msgrcv` takes the first message of the type, and waits if there is none. -/
def msgrcv (mtype : ℤ) (q : Queue) : Option (Message × Queue) :=
  (q.find? fun m => m.mtype = mtype).map fun m => (m, q.eraseP fun m => m.mtype = mtype)

inductive ServerPc where
  | msgget
  | msgsnd
  | msgrcv
  | rmid
  | ended
deriving DecidableEq

inductive ClientPc where
  | msgget
  | msgrcv
  | msgsnd
  | ended
deriving DecidableEq

structure Server where
  pc : ServerPc
  msgid : Option ℕ

structure Client where
  pc : ClientPc
  msgid : Option ℕ

structure State where
  queues : Objects Queue
  server : Server
  client : Client
  events : Events

/-- A run starts with the queue that earlier runs have left, if there is one. -/
def start (left : Option Queue) : State :=
  ⟨.ofLeft (left.map fun q => q.map Message.forget), ⟨.msgget, none⟩, ⟨.msgget, none⟩, .none⟩

namespace State

/-- A call on a queue. If it was removed, the call fails, removing it once more fails too, and
the process exits. -/
def call (s : State) (msgid : Option ℕ) (exit : State) (go : ℕ → Queue → Option State) :
    Option State := do
  let id ← msgid
  if s.queues.name = some id then
    let q ← s.queues.get id
    go id q
  else some exit

/-- The server's `main`. -/
def serverMove (qbytes : ℕ) (s : State) : Option State :=
  match s.server.pc with
  | .msgget =>
    let (queues, msgid) := s.queues.openOrCreate []
    some { s with queues, server := ⟨.msgsnd, some msgid⟩ }
  | .msgsnd =>
    s.call s.server.msgid { s with server.pc := .ended } fun id q =>
      (msgsnd qbytes ⟨1, greeting⟩ q).map fun q =>
        { s with queues := s.queues.put id q, server.pc := .msgrcv }
  | .msgrcv =>
    s.call s.server.msgid { s with server.pc := .ended } fun id q =>
      (msgrcv 2 q).map fun (m, q) =>
        { s with
          queues := s.queues.put id q, server.pc := .rmid
          events.accepted := some m.letter }
  | .rmid =>
    s.call s.server.msgid { s with server.pc := .ended } fun _ _ =>
      some { s with
        queues := s.queues.unlink, server.pc := .ended, events.removed := true }
  | .ended => none

/-- The client's `main`. It exits if there is no queue. -/
def clientMove (qbytes : ℕ) (s : State) : Option State :=
  match s.client.pc with
  | .msgget =>
    match s.queues.name with
    | some id => some { s with client := ⟨.msgrcv, some id⟩ }
    | none => some { s with client.pc := .ended }
  | .msgrcv =>
    s.call s.client.msgid { s with client.pc := .ended } fun id q =>
      (msgrcv 1 q).map fun (m, q) =>
        { s with
          queues := s.queues.put id q, client.pc := .msgsnd
          events.taken := some m.letter }
  | .msgsnd =>
    s.call s.client.msgid { s with client.pc := .ended } fun id q =>
      (msgsnd qbytes ⟨2, reply⟩ q).map fun q =>
        { s with queues := s.queues.put id q, client.pc := .ended }
  | .ended => none

end State

/-- One step of one of the processes. A process that is killed takes no more steps. -/
def step (qbytes : ℕ) (s : State) : Process → Option State
  | .server => s.serverMove qbytes
  | .client => s.clientMove qbytes

variable {qbytes : ℕ} {s t : State} {q r : Queue} {m : Message} {mtype : ℤ} {left : Option Queue}

/-! ### The calls -/

theorem call_eq_some {msgid : Option ℕ} {exit : State} {go : ℕ → Queue → Option State}
    (h : s.call msgid exit go = some t) :
    t = exit ∨ ∃ id q, s.queues.get id = some q ∧ go id q = some t := by
  obtain ⟨id, -, h⟩ := Option.bind_eq_some_iff.mp h
  split at h
  · obtain ⟨q, hget, hgo⟩ := Option.bind_eq_some_iff.mp h
    exact .inr ⟨id, q, hget, hgo⟩
  · exact .inl (Option.some.inj h).symm

theorem msgsnd_eq_some (h : msgsnd qbytes m q = some r) : r = q ++ [m] :=
  (Option.some.inj (Option.ite_none_right_eq_some.mp h).2).symm

theorem msgrcv_eq_some (h : msgrcv mtype q = some (m, r)) :
    m ∈ q ∧ m.mtype = mtype ∧ ∀ x ∈ r, x ∈ q := by
  obtain ⟨m', hfind, heq⟩ := Option.map_eq_some_iff.mp h
  cases heq
  exact ⟨List.mem_of_find?_eq_some hfind, by simpa using List.find?_some hfind,
    fun x hx => List.mem_of_mem_eraseP hx⟩

/-! ### Runs without old messages -/

/-- The message is for nobody, or one of this run where it belongs. -/
structure Current (e : Events) (m : Message) : Prop where
  toClient : m.mtype = 1 → m.letter = greeting
  toServer : m.mtype = 2 → m.letter = reply ∧ e.taken = some greeting

structure Inv (s : State) : Prop where
  current : s.queues.All fun q => ∀ m ∈ q, Current s.events m
  client : s.client.pc = .msgsnd → s.events.taken = some greeting
  server : s.server.pc = .rmid → s.events.taken = some greeting
  safe : Safe s.events

/-- There is no message of the two types. -/
def Drained (left : Option Queue) : Prop := ∀ q ∈ left, ∀ m ∈ q, m.mtype ≠ 1 ∧ m.mtype ≠ 2

theorem Inv.start (h : Drained left) : Inv (start left) := by
  refine ⟨?_, by simp [SystemV.start], by simp [SystemV.start], .none⟩
  refine .ofLeft fun q hq m hm => ?_
  obtain ⟨q₀, hq₀, rfl⟩ := Option.map_eq_some_iff.mp hq
  obtain ⟨m₀, hm₀, rfl⟩ := List.mem_map.mp hm
  obtain ⟨hne₁, hne₂⟩ := h q₀ hq₀ m₀ hm₀
  exact ⟨fun h => absurd h hne₁, fun h => absurd h hne₂⟩

namespace Inv

/-- What is true of all messages stays true, whatever happens besides. -/
theorem current_mono (h : Inv s) {e : Events} (hold : ∀ m, Current s.events m → Current e m) :
    s.queues.All fun q => ∀ m ∈ q, Current e m :=
  h.current.mono fun _ hq m hm => hold m (hq m hm)

/-- A message is sent. -/
theorem sent (h : Inv s) {id : ℕ} (hget : s.queues.get id = some q)
    (hsend : msgsnd qbytes m q = some r) (hm : Current s.events m) :
    (s.queues.put id r).All fun q => ∀ m ∈ q, Current s.events m := by
  refine h.current.put fun x hx => ?_
  rw [msgsnd_eq_some hsend, List.mem_append, List.mem_singleton] at hx
  rcases hx with hx | rfl
  · exact h.current.of_get hget x hx
  · exact hm

/-- A message is received. -/
theorem received (h : Inv s) {id : ℕ} {e : Events} (hget : s.queues.get id = some q)
    (hreceive : msgrcv mtype q = some (m, r)) (hold : ∀ m, Current s.events m → Current e m) :
    (s.queues.put id r).All fun q => ∀ m ∈ q, Current e m := by
  refine (h.current_mono hold).put fun x hx => ?_
  exact hold x (h.current.of_get hget x ((msgrcv_eq_some hreceive).2.2 x hx))

theorem serverMove (h : Inv s) (hstep : s.serverMove qbytes = some t) : Inv t := by
  unfold State.serverMove at hstep
  cases hpc : s.server.pc with
  | msgget =>
    simp only [hpc] at hstep
    cases hstep
    exact ⟨h.current.openOrCreate (by simp), h.client, by simp, h.safe⟩
  | msgsnd =>
    simp only [hpc] at hstep
    rcases call_eq_some hstep with rfl | ⟨id, q, hget, hgo⟩
    · exact ⟨h.current, h.client, by simp, h.safe⟩
    · obtain ⟨r, hsend, rfl⟩ := Option.map_eq_some_iff.mp hgo
      exact ⟨h.sent hget hsend ⟨fun _ => rfl, by simp⟩, h.client, by simp, h.safe⟩
  | msgrcv =>
    simp only [hpc] at hstep
    rcases call_eq_some hstep with rfl | ⟨id, q, hget, hgo⟩
    · exact ⟨h.current, h.client, by simp, h.safe⟩
    · obtain ⟨⟨m, r⟩, hreceive, rfl⟩ := Option.map_eq_some_iff.mp hgo
      obtain ⟨hm, htype, -⟩ := msgrcv_eq_some hreceive
      obtain ⟨hreply, htaken⟩ := (h.current.of_get hget m hm).toServer htype
      refine ⟨h.received hget hreceive fun _ hx => ⟨hx.1, hx.2⟩, h.client, fun _ => htaken, ?_⟩
      dsimp only
      rw [hreply]
      exact .accept htaken
  | rmid =>
    simp only [hpc] at hstep
    rcases call_eq_some hstep with rfl | ⟨id, q, hget, hgo⟩
    · exact ⟨h.current, h.client, by simp, h.safe⟩
    · cases hgo
      -- The server gets here only with a reply, hence after its greeting was taken.
      exact ⟨h.current_mono fun _ hm => ⟨hm.1, hm.2⟩, h.client, by simp,
        h.safe.remove (h.server hpc)⟩
  | ended => simp [hpc] at hstep

theorem clientMove (h : Inv s) (hstep : s.clientMove qbytes = some t) : Inv t := by
  unfold State.clientMove at hstep
  cases hpc : s.client.pc with
  | msgget =>
    simp only [hpc] at hstep
    split at hstep <;> cases hstep <;> exact ⟨h.current, by simp, h.server, h.safe⟩
  | msgrcv =>
    simp only [hpc] at hstep
    rcases call_eq_some hstep with rfl | ⟨id, q, hget, hgo⟩
    · exact ⟨h.current, by simp, h.server, h.safe⟩
    · obtain ⟨⟨m, r⟩, hreceive, rfl⟩ := Option.map_eq_some_iff.mp hgo
      obtain ⟨hm, htype, -⟩ := msgrcv_eq_some hreceive
      have hgreeting : m.letter = greeting := (h.current.of_get hget m hm).toClient htype
      dsimp only
      -- From now on the greeting of this server has been taken.
      rw [hgreeting]
      exact ⟨h.received hget hreceive fun _ hx => ⟨hx.1, fun htype => ⟨(hx.2 htype).1, rfl⟩⟩,
        fun _ => rfl, fun _ => rfl, h.safe.take⟩
  | msgsnd =>
    simp only [hpc] at hstep
    rcases call_eq_some hstep with rfl | ⟨id, q, hget, hgo⟩
    · exact ⟨h.current, by simp, h.server, h.safe⟩
    · obtain ⟨r, hsend, rfl⟩ := Option.map_eq_some_iff.mp hgo
      exact ⟨h.sent hget hsend ⟨by simp, fun _ => ⟨rfl, h.client hpc⟩⟩, by simp, h.server, h.safe⟩
  | ended => simp [hpc] at hstep

theorem run (hleft : Drained left) {acts : List Process}
    (hrun : run (step qbytes) (SystemV.start left) acts = some s) : Inv s := by
  have hkeeps : Preserved (step qbytes) Inv := by
    intro s p t h hstep
    cases p with
    | server => exact h.serverMove hstep
    | client => exact h.clientMove hstep
  exact hkeeps.run (.start hleft) hrun

end Inv

/-! ### Runs with old messages -/

theorem bytes_append : bytes (q ++ r) = bytes q + bytes r := by
  simp [bytes]

theorem bytes_forget : bytes (q.map Message.forget) = bytes q := by
  rw [bytes, List.map_map]
  rfl

/-- A message of the type is there, so one is received. -/
theorem msgrcv_of_mem (hm : m ∈ q) :
    ∃ m' r, msgrcv m.mtype q = some (m', r) ∧ bytes r ≤ bytes q := by
  obtain ⟨m', hfind⟩ : ∃ m', q.find? (fun x => x.mtype = m.mtype) = some m' :=
    Option.isSome_iff_exists.mp (List.find?_isSome.mpr ⟨m, hm, by simp⟩)
  refine ⟨m', q.eraseP fun x => x.mtype = m.mtype, by rw [msgrcv, hfind, Option.map_some], ?_⟩
  exact (List.eraseP_sublist.map Message.size).sum_le_sum fun _ _ => Nat.zero_le _

section Steps

variable {server : Server} {client : Client} {e : Events}

theorem serverOpens :
    step qbytes (start (some q)) .server =
      some ⟨.ofLeft (some (q.map Message.forget)), ⟨.msgsnd, some 0⟩, ⟨.msgget, none⟩, .none⟩ :=
  rfl

theorem serverSends (hroom : bytes q + 4 ≤ qbytes) :
    step qbytes ⟨.ofLeft (some q), ⟨.msgsnd, some 0⟩, client, e⟩ .server =
      some ⟨.ofLeft (some (q ++ [⟨1, greeting⟩])), ⟨.msgrcv, some 0⟩, client, e⟩ := by
  have hsend : msgsnd qbytes ⟨1, greeting⟩ q = some (q ++ [⟨1, greeting⟩]) := if_pos hroom
  simp [step, State.serverMove, State.call, hsend]

theorem serverReceives (hreceive : msgrcv 2 q = some (m, r)) :
    step qbytes ⟨.ofLeft (some q), ⟨.msgrcv, some 0⟩, client, e⟩ .server =
      some ⟨.ofLeft (some r), ⟨.rmid, some 0⟩, client, { e with accepted := some m.letter }⟩ := by
  simp [step, State.serverMove, State.call, hreceive]

theorem clientOpens :
    step qbytes ⟨.ofLeft (some q), server, ⟨.msgget, none⟩, e⟩ .client =
      some ⟨.ofLeft (some q), server, ⟨.msgrcv, some 0⟩, e⟩ :=
  rfl

theorem clientReceives (hreceive : msgrcv 1 q = some (m, r)) :
    step qbytes ⟨.ofLeft (some q), server, ⟨.msgrcv, some 0⟩, e⟩ .client =
      some ⟨.ofLeft (some r), server, ⟨.msgsnd, some 0⟩, { e with taken := some m.letter }⟩ := by
  simp [step, State.clientMove, State.call, hreceive]

theorem clientSends (hroom : bytes q + 7 ≤ qbytes) :
    step qbytes ⟨.ofLeft (some q), server, ⟨.msgsnd, some 0⟩, e⟩ .client =
      some ⟨.ofLeft (some (q ++ [⟨2, reply⟩])), server, ⟨.ended, some 0⟩, e⟩ := by
  have hsend : msgsnd qbytes ⟨2, reply⟩ q = some (q ++ [⟨2, reply⟩]) := if_pos hroom
  simp [step, State.clientMove, State.call, hsend]

end Steps

theorem writer_of_mem_forget (h : m ∈ q.map Message.forget) : m.letter.writer = .other := by
  obtain ⟨m₀, -, rfl⟩ := List.mem_map.mp h
  rfl

/-- An old greeting is taken, and the reply to it accepted by this server. -/
theorem not_safe_of_greeting (hm : m ∈ q) (htype : m.mtype = 1) (hroom : bytes q + 11 ≤ qbytes) :
    ∃ acts s, run (step qbytes) (start (some q)) acts = some s ∧ ¬ Safe s.events := by
  have hold : m.forget ∈ q.map Message.forget := List.mem_map_of_mem hm
  -- The queue is in the order of arrival, so a client that comes now gets an old greeting.
  obtain ⟨m₁, q₁, htake, hbytes⟩ := msgrcv_of_mem hold
  rw [bytes_forget] at hbytes
  have htake₁ : msgrcv 1 (q.map Message.forget) = some (m₁, q₁) := htype ▸ htake
  -- Whatever the server accepts then, its own greeting was not taken before.
  obtain ⟨m₂, q₂, haccept, -⟩ :=
    msgrcv_of_mem (List.mem_concat_self : (⟨2, reply⟩ : Message) ∈ q₁ ++ [⟨1, greeting⟩] ++ [_])
  have hroom₁ : bytes q₁ + 4 ≤ qbytes := by omega
  have hroom₂ : bytes (q₁ ++ [⟨1, greeting⟩]) + 7 ≤ qbytes := by
    rw [bytes_append]
    change bytes q₁ + 4 + 7 ≤ qbytes
    omega
  have hrun : run (step qbytes) (start (some q))
      [.server, .client, .client, .server, .client, .server] =
      some ⟨.ofLeft (some q₂), ⟨.rmid, some 0⟩, ⟨.ended, some 0⟩,
        ⟨some m₁.letter, some m₂.letter, false⟩⟩ := by
    simp only [run, serverOpens, clientOpens, clientReceives htake₁, serverSends hroom₁,
      clientSends hroom₂, serverReceives haccept, Option.bind_some]
    rfl
  have hold₁ : m₁.letter.writer = .other := writer_of_mem_forget (msgrcv_eq_some htake₁).1
  exact ⟨_, _, hrun, Safe.not_of_other rfl hold₁ (.inr rfl)⟩

/-- An old reply is accepted. -/
theorem not_safe_of_reply (hm : m ∈ q) (htype : m.mtype = 2) (hroom : bytes q + 11 ≤ qbytes) :
    ∃ acts s, run (step qbytes) (start (some q)) acts = some s ∧ ¬ Safe s.events := by
  have hold : m.forget ∈ q.map Message.forget ++ [⟨1, greeting⟩] :=
    List.mem_append_left _ (List.mem_map_of_mem hm)
  obtain ⟨m₁, q₁, htake, -⟩ := msgrcv_of_mem hold
  have haccept : msgrcv 2 (q.map Message.forget ++ [⟨1, greeting⟩]) = some (m₁, q₁) :=
    htype ▸ htake
  obtain ⟨hm₁, htype₁, -⟩ := msgrcv_eq_some haccept
  have hwriter : m₁.letter.writer = .other := by
    rcases List.mem_append.mp hm₁ with hm₁ | hm₁
    · exact writer_of_mem_forget hm₁
    -- the greeting of this server has another type
    · rw [List.mem_singleton.mp hm₁] at htype₁
      cases htype₁
  have hroom₁ : bytes (q.map Message.forget) + 4 ≤ qbytes := by
    rw [bytes_forget]
    omega
  have hrun : run (step qbytes) (start (some q)) [.server, .server, .server] =
      some ⟨.ofLeft (some q₁), ⟨.rmid, some 0⟩, ⟨.msgget, none⟩,
        ⟨none, some m₁.letter, false⟩⟩ := by
    simp only [run, serverOpens, serverSends hroom₁, serverReceives haccept, Option.bind_some]
    rfl
  exact ⟨_, _, hrun, Safe.not_of_other rfl hwriter (.inl rfl)⟩

/-- Room for the two messages of a run. -/
def Room (qbytes : ℕ) (left : Option Queue) : Prop := ∀ q ∈ left, bytes q + 11 ≤ qbytes

theorem not_safe_of_message (hleft : ¬ Drained left) (hroom : Room qbytes left) :
    ∃ acts s, run (step qbytes) (start left) acts = some s ∧ ¬ Safe s.events := by
  simp only [Drained, not_forall] at hleft
  obtain ⟨q, hq, m, hm, htype⟩ := hleft
  obtain rfl : left = some q := hq
  rw [not_and_or, not_not, not_not] at htype
  rcases htype with htype | htype
  · exact not_safe_of_greeting hm htype (hroom q rfl)
  · exact not_safe_of_reply hm htype (hroom q rfl)

end UnixLessons.MessageQueues.SystemV

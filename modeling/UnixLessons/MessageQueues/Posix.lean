import UnixLessons.MessageQueues.Letters
import UnixLessons.Processes.Objects
import UnixLessons.Transition.Run

/-!
# The handshake over POSIX queues

One queue for each direction. The server opens both with what is in them and removes their
names at its end; who has a queue open keeps it.

## Main results

* `Inv.run`: a run that starts with empty queues is safe
* `not_safe_of_letter`: with a letter in a queue, some run is not
-/

namespace UnixLessons.MessageQueues.Posix

open Processes Transition
open SharedMemory (Process)

abbrev Queue := List Letter

/-- The attribute `mq_maxmsg`. -/
def maxMsg : ℕ := 10

/-- `mq_send` waits as long as the queue is full. All letters have the same priority, so a new
one is the last. -/
def mqSend (l : Letter) (q : Queue) : Option Queue :=
  if q.length < maxMsg then some (q ++ [l]) else none

/-- `mq_receive` waits as long as the queue is empty. -/
def mqReceive : Queue → Option (Letter × Queue)
  | [] => none
  | l :: q => some (l, q)

inductive ServerPc where
  | openToClient
  | openFromClient
  | send
  | receive
  | unlinkFromServer
  | unlinkFromClient
  | ended
deriving DecidableEq

inductive ClientPc where
  | openFromServer
  | openFromClient
  | receive
  | send
  | ended
deriving DecidableEq

structure Server where
  pc : ServerPc
  mqToClient : Option ℕ
  mqFromClient : Option ℕ

structure Client where
  pc : ClientPc
  mqFromServer : Option ℕ
  mqFromClient : Option ℕ

structure State where
  /-- The queues named `/from_server`. -/
  fromServer : Objects Queue
  /-- The queues named `/from_client`. -/
  fromClient : Objects Queue
  server : Server
  client : Client
  events : Events

/-- What is left of the two queues. -/
structure Left where
  fromServer : Option Queue
  fromClient : Option Queue

/-- Letters of earlier runs. -/
def oldLetters (left : Option Queue) : Option Queue := left.map fun q => q.map Letter.forget

/-- A run starts with the queues that earlier runs have left. -/
def start (left : Left) : State :=
  ⟨.ofLeft (oldLetters left.fromServer), .ofLeft (oldLetters left.fromClient),
    ⟨.openToClient, none, none⟩, ⟨.openFromServer, none, none⟩, .none⟩

namespace State

/-- The server's `main`. -/
def serverMove (s : State) : Option State :=
  match s.server.pc with
  | .openToClient =>
    let (queues, mq) := s.fromServer.openOrCreate []
    some { s with fromServer := queues, server := ⟨.openFromClient, some mq, none⟩ }
  | .openFromClient =>
    let (queues, mq) := s.fromClient.openOrCreate []
    some { s with fromClient := queues, server := ⟨.send, s.server.mqToClient, some mq⟩ }
  | .send => do
    let mq ← s.server.mqToClient
    let q ← s.fromServer.get mq
    let q ← mqSend greeting q
    some { s with fromServer := s.fromServer.put mq q, server.pc := .receive }
  | .receive => do
    let mq ← s.server.mqFromClient
    let q ← s.fromClient.get mq
    let (l, q) ← mqReceive q
    some { s with
      fromClient := s.fromClient.put mq q, server.pc := .unlinkFromServer
      events.accepted := some l }
  | .unlinkFromServer =>
    some { s with
      fromServer := s.fromServer.unlink, server.pc := .unlinkFromClient, events.removed := true }
  | .unlinkFromClient =>
    some { s with fromClient := s.fromClient.unlink, server.pc := .ended, events.removed := true }
  | .ended => none

/-- The client's `main`. It exits if one of the queues does not exist. -/
def clientMove (s : State) : Option State :=
  match s.client.pc with
  | .openFromServer =>
    match s.fromServer.name with
    | some mq => some { s with client := ⟨.openFromClient, some mq, none⟩ }
    | none => some { s with client.pc := .ended }
  | .openFromClient =>
    match s.fromClient.name with
    | some mq => some { s with client := ⟨.receive, s.client.mqFromServer, some mq⟩ }
    | none => some { s with client.pc := .ended }
  | .receive => do
    let mq ← s.client.mqFromServer
    let q ← s.fromServer.get mq
    let (l, q) ← mqReceive q
    some { s with
      fromServer := s.fromServer.put mq q, client.pc := .send, events.taken := some l }
  | .send => do
    let mq ← s.client.mqFromClient
    let q ← s.fromClient.get mq
    let q ← mqSend reply q
    some { s with fromClient := s.fromClient.put mq q, client.pc := .ended }
  | .ended => none

end State

/-- One step of one of the processes. A process that is killed takes no more steps. -/
def step (s : State) : Process → Option State
  | .server => s.serverMove
  | .client => s.clientMove

variable {s t : State} {q r : Queue} {l : Letter} {left : Left}

/-! ### The calls -/

theorem mqSend_eq_some (h : mqSend l q = some r) : r = q ++ [l] :=
  (Option.some.inj (Option.ite_none_right_eq_some.mp h).2).symm

theorem mqReceive_eq_some (h : mqReceive q = some (l, r)) : q = l :: r := by
  cases q with
  | nil => cases h
  | cons l' q =>
    cases h
    rfl

/-! ### Runs without old letters -/

/-- All letters in the queues of a name have the property. -/
def Holds (o : Objects Queue) (P : Letter → Prop) : Prop := o.All fun q => ∀ l ∈ q, P l

namespace Holds

variable {o : Objects Queue} {P Q : Letter → Prop} {i : ℕ}

theorem mono (h : Holds o P) (hPQ : ∀ l, P l → Q l) : Holds o Q :=
  Objects.All.mono h fun _ hq l hl => hPQ l (hq l hl)

theorem openOrCreate (h : Holds o P) : Holds (o.openOrCreate []).1 P :=
  Objects.All.openOrCreate h (by simp)

theorem send (h : Holds o P) (hget : o.get i = some q) (hsend : mqSend l q = some r) (hl : P l) :
    Holds (o.put i r) P := by
  refine Objects.All.put h fun l' hl' => ?_
  rw [mqSend_eq_some hsend, List.mem_append, List.mem_singleton] at hl'
  rcases hl' with hl' | rfl
  · exact Objects.All.of_get h hget l' hl'
  · exact hl

theorem receive (h : Holds o P) (hget : o.get i = some q) (hreceive : mqReceive q = some (l, r)) :
    P l ∧ Holds (o.put i r) P := by
  have hq : ∀ l' ∈ l :: r, P l' := mqReceive_eq_some hreceive ▸ Objects.All.of_get h hget
  exact ⟨hq l List.mem_cons_self,
    Objects.All.put h fun l' hl' => hq l' (List.mem_cons_of_mem l hl')⟩

end Holds

structure Inv (s : State) : Prop where
  fromServer : Holds s.fromServer fun l => l = greeting
  fromClient : Holds s.fromClient fun l => l = reply ∧ s.events.taken = some greeting
  client : s.client.pc = .send → s.events.taken = some greeting
  server : s.server.pc = .unlinkFromServer ∨ s.server.pc = .unlinkFromClient →
    s.events.taken = some greeting
  safe : Safe s.events

/-- The queues are empty or do not exist. -/
def Drained (left : Left) : Prop :=
  (∀ q ∈ left.fromServer, q = []) ∧ ∀ q ∈ left.fromClient, q = []

theorem holds_of_empty {left : Option Queue} (h : ∀ q ∈ left, q = []) (P : Letter → Prop) :
    Holds (.ofLeft (oldLetters left)) P := by
  refine Objects.All.ofLeft fun q hq l hl => ?_
  obtain ⟨q₀, hq₀, rfl⟩ := Option.map_eq_some_iff.mp hq
  rw [h q₀ hq₀] at hl
  cases hl

theorem Inv.start (h : Drained left) : Inv (start left) :=
  ⟨holds_of_empty h.1 _, holds_of_empty h.2 _, by simp [Posix.start], by simp [Posix.start], .none⟩

namespace Inv

theorem serverMove (h : Inv s) (hstep : s.serverMove = some t) : Inv t := by
  unfold State.serverMove at hstep
  cases hpc : s.server.pc with
  | openToClient =>
    simp only [hpc] at hstep
    cases hstep
    exact ⟨h.fromServer.openOrCreate, h.fromClient, h.client, by simp, h.safe⟩
  | openFromClient =>
    simp only [hpc] at hstep
    cases hstep
    exact ⟨h.fromServer, h.fromClient.openOrCreate, h.client, by simp, h.safe⟩
  | send =>
    simp only [hpc, Option.bind_eq_bind, Option.bind_eq_some_iff] at hstep
    obtain ⟨mq, -, q, hget, r, hsend, heq⟩ := hstep
    cases heq
    exact ⟨h.fromServer.send hget hsend rfl, h.fromClient, h.client, by simp, h.safe⟩
  | receive =>
    simp only [hpc, Option.bind_eq_bind, Option.bind_eq_some_iff] at hstep
    obtain ⟨mq, -, q, hget, ⟨l, r⟩, hreceive, heq⟩ := hstep
    cases heq
    -- Only a client that has taken the greeting has replied.
    obtain ⟨⟨hreply, htaken⟩, hrest⟩ := h.fromClient.receive hget hreceive
    rw [hreply]
    exact ⟨h.fromServer, hrest, h.client, fun _ => htaken, .accept htaken⟩
  | unlinkFromServer =>
    simp only [hpc] at hstep
    cases hstep
    have htaken : s.events.taken = some greeting := h.server (.inl hpc)
    exact ⟨h.fromServer, h.fromClient, h.client, fun _ => htaken, h.safe.remove htaken⟩
  | unlinkFromClient =>
    simp only [hpc] at hstep
    cases hstep
    exact ⟨h.fromServer, h.fromClient, h.client, by simp, h.safe.remove (h.server (.inr hpc))⟩
  | ended => simp [hpc] at hstep

theorem clientMove (h : Inv s) (hstep : s.clientMove = some t) : Inv t := by
  unfold State.clientMove at hstep
  cases hpc : s.client.pc with
  | openFromServer | openFromClient =>
    simp only [hpc] at hstep
    split at hstep <;> cases hstep <;>
      exact ⟨h.fromServer, h.fromClient, by simp, h.server, h.safe⟩
  | receive =>
    simp only [hpc, Option.bind_eq_bind, Option.bind_eq_some_iff] at hstep
    obtain ⟨mq, -, q, hget, ⟨l, r⟩, hreceive, heq⟩ := hstep
    cases heq
    obtain ⟨hgreeting, hrest⟩ := h.fromServer.receive hget hreceive
    rw [hgreeting]
    exact ⟨hrest, h.fromClient.mono fun _ hl => ⟨hl.1, rfl⟩, fun _ => rfl, fun _ => rfl,
      h.safe.take⟩
  | send =>
    simp only [hpc, Option.bind_eq_bind, Option.bind_eq_some_iff] at hstep
    obtain ⟨mq, -, q, hget, r, hsend, heq⟩ := hstep
    cases heq
    exact ⟨h.fromServer, h.fromClient.send hget hsend ⟨rfl, h.client hpc⟩, by simp, h.server,
      h.safe⟩
  | ended => simp [hpc] at hstep

theorem run (hleft : Drained left) {acts : List Process}
    (hrun : run step (Posix.start left) acts = some s) : Inv s := by
  have hkeeps : Preserved step Inv := by
    intro s p t h hstep
    cases p with
    | server => exact h.serverMove hstep
    | client => exact h.clientMove hstep
  exact hkeeps.run (.start hleft) hrun

end Inv

/-! ### Runs with old letters -/

/-- A queue holds no more letters than it has places for. -/
def Bounded (left : Left) : Prop :=
  (∀ q ∈ left.fromServer, q.length ≤ maxMsg) ∧ ∀ q ∈ left.fromClient, q.length ≤ maxMsg

/-- The letters of a queue that exists or not. -/
def letters (left : Option Queue) : Queue := (oldLetters left).getD []

theorem length_letters {left : Option Queue} (h : ∀ q ∈ left, q.length ≤ maxMsg) :
    (letters left).length ≤ maxMsg := by
  cases left with
  | none => exact Nat.zero_le maxMsg
  | some q =>
    change (q.map Letter.forget).length ≤ maxMsg
    rw [List.length_map]
    exact h q rfl

theorem writer_of_mem_letters {left : Option Queue} (h : l ∈ letters left) : l.writer = .other := by
  cases left with
  | none => cases h
  | some q =>
    obtain ⟨l₀, -, rfl⟩ := List.mem_map.mp h
    rfl

theorem empty_of_letters {left : Option Queue} (h : letters left = []) : ∀ q ∈ left, q = [] := by
  rintro q rfl
  exact List.map_eq_nil_iff.mp h

/-- The server has opened the queues. -/
theorem serverOpens : run step (start left) [.server, .server] =
    some ⟨.ofLeft (some (letters left.fromServer)), .ofLeft (some (letters left.fromClient)),
      ⟨.send, some 0, some 0⟩, ⟨.openFromServer, none, none⟩, .none⟩ := by
  simp [run, step, State.serverMove, start, letters]

/-- Once one of the letters is taken there is room for another. -/
theorem mqSend_of_taken {m : Letter} (h : ∀ q ∈ left.fromServer, q.length ≤ maxMsg)
    (hl : letters left.fromServer = l :: r) : mqSend m r = some (r ++ [m]) := by
  have hle := length_letters h
  rw [hl, List.length_cons] at hle
  exact if_pos hle

/-- An old reply is accepted. If there is an old greeting too, the client takes it first: the
queue may have been full. -/
theorem not_safe_of_reply (hl : letters left.fromClient = l :: r) (hbounded : Bounded left) :
    ∃ acts s, run step (start left) acts = some s ∧ ¬ Safe s.events := by
  have hold : l.writer = .other := writer_of_mem_letters (hl ▸ List.mem_cons_self)
  cases hserver : letters left.fromServer with
  | nil =>
    have hsend : mqSend greeting [] = some [greeting] := rfl
    have hrun : run step (start left) ([.server, .server] ++ [.server, .server]) =
        some ⟨.ofLeft (some [greeting]), .ofLeft (some r),
          ⟨.unlinkFromServer, some 0, some 0⟩, ⟨.openFromServer, none, none⟩,
          ⟨none, some l, false⟩⟩ := by
      rw [run_append, serverOpens, hserver, hl]
      simp [run, step, State.serverMove, hsend, mqReceive, Events.none]
    exact ⟨_, _, hrun, Safe.not_of_other rfl hold (.inl rfl)⟩
  | cons m q =>
    -- the client takes the old greeting, and is not heard of again
    have hsend : mqSend greeting q = some _ := mqSend_of_taken hbounded.1 hserver
    have hrun : run step (start left) ([.server, .server] ++
        [.client, .client, .client, .server, .server]) =
        some ⟨.ofLeft (some (q ++ [greeting])), .ofLeft (some r),
          ⟨.unlinkFromServer, some 0, some 0⟩, ⟨.send, some 0, some 0⟩,
          ⟨some m, some l, false⟩⟩ := by
      rw [run_append, serverOpens, hserver, hl]
      simp [run, step, State.serverMove, State.clientMove, hsend, mqReceive, Events.none]
    exact ⟨_, _, hrun, Safe.not_of_other rfl hold (.inl rfl)⟩

/-- An old greeting is taken, and the reply to it accepted by this server. -/
theorem not_safe_of_greeting (hl : letters left.fromServer = l :: r)
    (hnone : letters left.fromClient = []) (hbounded : Bounded left) :
    ∃ acts s, run step (start left) acts = some s ∧ ¬ Safe s.events := by
  have hsend : mqSend greeting r = some _ := mqSend_of_taken hbounded.1 hl
  -- The client replies to what it has taken, before the greeting of this server is read.
  have hreply : mqSend reply [] = some [reply] := rfl
  have hrun : run step (start left) ([.server, .server] ++
      [.client, .client, .client, .server, .client, .server]) =
      some ⟨.ofLeft (some (r ++ [greeting])), .ofLeft (some []),
        ⟨.unlinkFromServer, some 0, some 0⟩, ⟨.ended, some 0, some 0⟩,
        ⟨some l, some reply, false⟩⟩ := by
    rw [run_append, serverOpens, hl, hnone]
    simp [run, step, State.serverMove, State.clientMove, hsend, hreply, mqReceive, Events.none]
  have hold : l.writer = .other := writer_of_mem_letters (hl ▸ List.mem_cons_self)
  exact ⟨_, _, hrun, Safe.not_of_other rfl hold (.inr rfl)⟩

theorem not_safe_of_letter (hleft : ¬ Drained left) (hbounded : Bounded left) :
    ∃ acts s, run step (start left) acts = some s ∧ ¬ Safe s.events := by
  -- An old reply is enough; an old greeting is needed only without one.
  cases hclient : letters left.fromClient with
  | cons l r => exact not_safe_of_reply hclient hbounded
  | nil =>
    cases hserver : letters left.fromServer with
    | cons l r => exact not_safe_of_greeting hserver hclient hbounded
    | nil => exact absurd ⟨empty_of_letters hserver, empty_of_letters hclient⟩ hleft

end UnixLessons.MessageQueues.Posix

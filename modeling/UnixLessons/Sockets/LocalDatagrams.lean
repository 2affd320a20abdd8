import Mathlib.Logic.Function.Basic
import UnixLessons.Text.CString

/-!
# A datagram and an answer through local sockets

The server binds a socket to its path, takes one datagram, answers to the address it came
from and ends. A client binds its own socket first, so that it can be answered, but all
clients use the same path for it, and each removes what it finds there before it binds and
when it ends. The address is no more than the path: the answer goes to the socket that is
there when it is sent.
-/

namespace UnixLessons.LocalDatagrams

open Text

def message : CString := "Hello!".toList

def response : CString := "Hi!".toList

def bufferSize : ℕ := 256

/-- What `printf` shows of a datagram. -/
def shown (datagram : CString) : CString := cstr (datagram.take (bufferSize - 1))

inductive ServerPc where
  | socket
  | unlink
  | bind
  | recvfrom
  | sendto
  | close
  | done
  | failed
deriving DecidableEq

/-- The socket of a client is open until `close`; `failed` tells how it ends then. -/
inductive ClientPc where
  | socket
  | unlink
  | bind
  | sendto
  | recvfrom
  | close (failed : Bool)
  | remove (failed : Bool)
  | done
  | failed
deriving DecidableEq

/-- What is found under the path of the clients: nothing, a socket of an earlier run, or the
socket of a client, which may be closed. -/
inductive File (N : ℕ) where
  | absent
  | stale
  | socket (j : Fin N)
deriving DecidableEq

/-- A client with the datagrams in its socket and the answers it has printed. -/
structure Client where
  pc : ClientPc
  queue : List CString
  out : List CString
deriving DecidableEq

namespace Client

def init : Client := ⟨.socket, [], []⟩

def goto (c : Client) (pc : ClientPc) : Client := { c with pc }

/-- The socket is bound, and not closed. -/
def listens (c : Client) : Bool :=
  match c.pc with
  | .sendto | .recvfrom | .close _ => true
  | _ => false

/-- `recvfrom` has taken a datagram. -/
def receive (c : Client) (datagram : CString) (rest : List CString) : Client :=
  { c with pc := .close false, queue := rest, out := c.out ++ [shown datagram] }

end Client

/-- One server and any number of clients. -/
structure State (N : ℕ) where
  server : ServerPc
  inbox : List CString
  serverOut : List CString
  file : File N
  client : Fin N → Client

/-- Who moves, and whether the call it makes succeeds. -/
inductive Action (N : ℕ) where
  | server (ok : Bool)
  | client (j : Fin N) (ok : Bool)
deriving DecidableEq

variable {N : ℕ}

/-- Before anybody has moved, with a socket of an earlier run or without. -/
def start (N : ℕ) (leftover : Bool) : State N :=
  ⟨.socket, [], [], if leftover then .stale else .absent, fun _ => .init⟩

namespace State

def serverGoto (s : State N) (pc : ServerPc) : State N := { s with server := pc }

def setClient (s : State N) (j : Fin N) (c : Client) : State N :=
  { s with client := Function.update s.client j c }

def clientGoto (s : State N) (j : Fin N) (pc : ClientPc) : State N :=
  s.setClient j ((s.client j).goto pc)

/-- `unlink` on the path of the clients; an error is ignored. -/
def unlink (s : State N) (ok : Bool) : State N :=
  { s with file := if ok then .absent else s.file }

/-- The server's socket is bound and open. -/
def ServerListens (s : State N) : Prop :=
  s.server = .recvfrom ∨ s.server = .sendto ∨ s.server = .close

instance (s : State N) : Decidable s.ServerListens := inferInstanceAs (Decidable (_ ∨ _ ∨ _))

/-- `sendto` with the path of the clients, which fails unless an open socket is there. -/
def answer (s : State N) : Option (State N) :=
  match s.file with
  | .absent | .stale => none
  | .socket k =>
    if (s.client k).listens then
      some (s.setClient k { s.client k with queue := (s.client k).queue ++ [response] })
    else none

/-- The next statement of the server. -/
def serverMain (s : State N) (ok : Bool) : Option (State N) :=
  match s.server with
  | .socket => some (s.serverGoto (if ok then .unlink else .failed))
  | .unlink => some (s.serverGoto .bind)
  | .bind => some (s.serverGoto (if ok then .recvfrom else .failed))
  | .recvfrom =>
    if ok then
      match s.inbox with
      | [] => none
      | datagram :: rest =>
        some ({ s with inbox := rest, serverOut := s.serverOut ++ [shown datagram] }.serverGoto
          .sendto)
    else some (s.serverGoto .failed)
  | .sendto => if ok then s.answer.map (·.serverGoto .close) else some (s.serverGoto .failed)
  | .close => some (s.serverGoto .done)
  | .done | .failed => none

/-- The next statement of a client. -/
def clientMain (s : State N) (j : Fin N) (ok : Bool) : Option (State N) :=
  match (s.client j).pc with
  | .socket => some (s.clientGoto j (if ok then .unlink else .failed))
  | .unlink => some ((s.unlink ok).clientGoto j .bind)
  | .bind =>
    if ok then
      if s.file = .absent then some ({ s with file := .socket j }.clientGoto j .sendto) else none
    else some (s.clientGoto j .failed)
  | .sendto =>
    if ok then
      if s.ServerListens then
        some ({ s with inbox := s.inbox ++ [message] }.clientGoto j .recvfrom)
      else none
    else some (s.clientGoto j (.close true))
  | .recvfrom =>
    if ok then
      match (s.client j).queue with
      | [] => none
      | datagram :: rest => some (s.setClient j ((s.client j).receive datagram rest))
    else some (s.clientGoto j (.close true))
  | .close failed => some (s.clientGoto j (.remove failed))
  | .remove failed => some ((s.unlink ok).clientGoto j (if failed then .failed else .done))
  | .done | .failed => none

end State

def step (s : State N) : Action N → Option (State N)
  | .server ok => s.serverMain ok
  | .client j ok => s.clientMain j ok

end UnixLessons.LocalDatagrams

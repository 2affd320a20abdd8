import Mathlib.Data.Finset.Basic
import UnixLessons.Text.CString

/-!
# Ten datagrams to a group

`server.c` sends ten datagrams, a second apart, and ends whether or not they arrive. A client
binds its socket to the port they come to and ends after ten of them. In `Multicast` it joins
a group first and gives up when `recvfrom` fails, in `Broadcast` it tries again.

The network brings a datagram to any of the sockets that are bound to the port, and to each of
them once. On one host that is one socket at a time.
-/

namespace UnixLessons.DataTransfer

open Text

inductive Program where
  | broadcast
  | multicast
deriving DecidableEq

def message : CString := "Hi".toList

def bufferSize : ℕ := 1024

/-- How many datagrams the server sends, and how many a client waits for. -/
def count : ℕ := 10

inductive ServerPc where
  | setup
  | loop (i : ℕ)
  | done
  | failed
deriving DecidableEq

inductive ClientPc where
  | socket
  | bind
  | join
  | loop
  | leave
  | done
  | failed
deriving DecidableEq

/-- A client with the datagrams in its socket and the numbered answers it has printed. -/
structure Client where
  host : ℕ
  pc : ClientPc
  queue : List CString
  received : ℕ
  out : List (ℕ × CString)
deriving DecidableEq

namespace Client

def init (host : ℕ) : Client := ⟨host, .socket, [], 0, []⟩

def goto (c : Client) (pc : ClientPc) : Client := { c with pc }

/-- The socket has the port. -/
def Bound (c : Client) : Prop := c.pc = .join ∨ c.pc = .loop ∨ c.pc = .leave

instance (c : Client) : Decidable c.Bound := inferInstanceAs (Decidable (_ ∨ _ ∨ _))

/-- A datagram comes to the host. -/
def deliver (c : Client) : Client :=
  if c.Bound then { c with queue := c.queue ++ [message] } else c

/-- `recvfrom` has returned nothing. -/
def giveUp (program : Program) (c : Client) : Client :=
  match program with
  | .broadcast => c
  | .multicast => c.goto .leave

/-- `recvfrom` has taken a datagram from the socket. -/
def receive (program : Program) (c : Client) (datagram : CString) : Client :=
  let bytes := datagram.take (bufferSize - 1)
  if bytes = [] then c.giveUp program
  else { c with received := c.received + 1, out := c.out ++ [(c.received + 1, cstr bytes)] }

/-- The next statement of a client, whose calls may fail; `bind` does if the port is taken,
and `recvfrom` waits for a datagram. -/
def main (program : Program) (free ok : Bool) (c : Client) : Option Client :=
  match c.pc with
  | .socket => some (c.goto (if ok then .bind else .failed))
  | .bind =>
    if ok then
      if free then
        some (c.goto (match program with | .broadcast => .loop | .multicast => .join))
      else none
    else some (c.goto .failed)
  | .join => some (c.goto (if ok then .loop else .failed))
  | .loop =>
    if c.received < count then
      if ok then
        match c.queue with
        | [] => none
        | datagram :: rest => some ({ c with queue := rest }.receive program datagram)
      else some (c.giveUp program)
    else some (c.goto (match program with | .broadcast => .done | .multicast => .leave))
  -- the error of `IP_DROP_MEMBERSHIP` is only printed
  | .leave => some (c.goto .done)
  | .done | .failed => none

end Client

/-- One server and any number of clients. -/
structure State (N : ℕ) where
  server : ServerPc
  client : Fin N → Client

/-- Who moves, and whether the call it makes succeeds; a datagram reaches some clients. -/
inductive Action (N : ℕ) where
  | server (reached : Option (Finset (Fin N)))
  | client (j : Fin N) (ok : Bool)
deriving DecidableEq

variable {N : ℕ}

def start (host : Fin N → ℕ) : State N := ⟨.setup, fun j => .init (host j)⟩

namespace State

def serverGoto (s : State N) (pc : ServerPc) : State N := { s with server := pc }

def deliver (s : State N) (reached : Finset (Fin N)) : State N :=
  { s with client := fun j => if j ∈ reached then (s.client j).deliver else s.client j }

/-- The port of the host of a client is not taken. -/
def PortFree (s : State N) (j : Fin N) : Prop :=
  ∀ k, (s.client k).host = (s.client j).host → ¬ (s.client k).Bound

instance (s : State N) (j : Fin N) : Decidable (s.PortFree j) :=
  inferInstanceAs (Decidable (∀ _, _ → _))

/-- The next statement of the server. It goes on when `sendto` fails. -/
def serverMain (s : State N) (reached : Option (Finset (Fin N))) : Option (State N) :=
  match s.server with
  | .setup => some (s.serverGoto (if reached.isSome then .loop 0 else .failed))
  | .loop i =>
    if i < count then some ((s.deliver (reached.getD ∅)).serverGoto (.loop (i + 1)))
    else some (s.serverGoto .done)
  | .done | .failed => none

end State

def step (program : Program) (s : State N) : Action N → Option (State N)
  | .server reached => s.serverMain reached
  | .client j ok =>
    ((s.client j).main program (decide (s.PortFree j)) ok).map fun c =>
      { s with client := Function.update s.client j c }

end UnixLessons.DataTransfer

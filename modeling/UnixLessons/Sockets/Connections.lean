import Mathlib.Logic.Function.Basic
import UnixLessons.Text.CString

/-!
# One connection and one answer

The servers of `TCP_local` and `TCP_afinet` accept one connection, read once, answer and end.
Any number of clients connect at any time; those that are not accepted find their connection
reset. `TCP_local` stops at every error, `TCP_afinet` goes on after those of `read` and `send`.
-/

namespace UnixLessons.Connections

open Text

inductive Program where
  | tcpLocal
  | tcpAfinet
deriving DecidableEq

namespace Program

def bufferSize : Program → ℕ
  | tcpLocal => 256
  | tcpAfinet => 1024

/-- The argument of `listen`; one more connection may wait. -/
def backlog : Program → ℕ
  | tcpLocal => 2
  | tcpAfinet => 3

/-- What `printf` shows of the bytes that `read` has taken. -/
def shown (program : Program) (bytes : CString) : CString :=
  cstr (bytes.take (program.bufferSize - 1))

/-- Where a process goes after an error of `read`, `write` or `send`. -/
def onError {α : Type*} (program : Program) (failed goesOn : α) : α :=
  match program with
  | tcpLocal => failed
  | tcpAfinet => goesOn

end Program

def message : CString := "Hello!".toList

def response : CString := "Hi!".toList

/-- `setup` ends with `listen`; `read k` and `write k` are about the connection with `k`. -/
inductive ServerPc (N : ℕ) where
  | setup
  | accept
  | read (k : Fin N)
  | write (k : Fin N)
  | done
  | failed
  | killed
deriving DecidableEq

inductive ClientPc where
  | socket
  | connect
  | write
  | read
  | done
  | failed
  | killed
deriving DecidableEq

/-- A client, the bytes on the way in both directions and the answers it has printed. -/
structure Client where
  pc : ClientPc
  toServer : CString
  toClient : CString
  out : List CString
deriving DecidableEq

namespace Client

def init : Client := ⟨.socket, [], [], []⟩

def goto (c : Client) (pc : ClientPc) : Client := { c with pc }

/-- It has ended, and its socket is closed. -/
def ended (c : Client) : Bool :=
  match c.pc with
  | .done | .failed | .killed => true
  | _ => false

end Client

/-- One server, the connections that wait to be accepted, and any number of clients. -/
structure State (N : ℕ) where
  server : ServerPc N
  line : List (Fin N)
  serverOut : List CString
  client : Fin N → Client

/-- Who moves, and whether no call fails that could succeed. -/
inductive Action (N : ℕ) where
  | server (ok : Bool)
  | client (j : Fin N) (ok : Bool)
deriving DecidableEq

def Action.ok {N : ℕ} : Action N → Bool
  | .server ok | .client _ ok => ok

variable {N : ℕ}

def start (N : ℕ) : State N := ⟨.setup, [], [], fun _ => .init⟩

namespace State

def serverGoto (s : State N) (pc : ServerPc N) : State N := { s with server := pc }

def setClient (s : State N) (j : Fin N) (c : Client) : State N :=
  { s with client := Function.update s.client j c }

/-- The listening socket is open. -/
def listens (s : State N) : Bool :=
  match s.server with
  | .accept | .read _ | .write _ => true
  | _ => false

/-- All sockets of the server are closed. -/
def ended (s : State N) : Bool :=
  match s.server with
  | .done | .failed | .killed => true
  | _ => false

/-- The next statement of the server. -/
def serverMain (program : Program) (s : State N) (ok : Bool) : Option (State N) :=
  match s.server with
  | .setup => some (s.serverGoto (if ok then .accept else .failed))
  | .accept =>
    if ok then
      match s.line with
      | [] => none
      | k :: line => some ({ s with line }.serverGoto (.read k))
    else some (s.serverGoto .failed)
  | .read k =>
    let c := s.client k
    if ok then
      if c.toServer ≠ [] then
        let rest := c.toServer.drop (program.bufferSize - 1)
        let serverOut := s.serverOut ++ [program.shown c.toServer]
        some (({ s with serverOut }.setClient k { c with toServer := rest }).serverGoto (.write k))
      else if c.ended then some (s.serverGoto (program.onError .done (.write k)))
      else none
    else some (s.serverGoto (program.onError .failed (.write k)))
  | .write k =>
    if ok then
      some ((s.setClient k
        { s.client k with toClient := (s.client k).toClient ++ response }).serverGoto .done)
    -- the signal of a write to a closed connection
    else if (s.client k).ended then some (s.serverGoto .killed)
    else some (s.serverGoto (program.onError .failed .done))
  | .done | .failed | .killed => none

/-- Where a client goes when the server has ended and nothing comes from it: `read` fails if
the connection was not accepted, or if the server has not read what was sent over it. -/
def hungUp (program : Program) (s : State N) (j : Fin N) : ClientPc :=
  if s.line.contains j ∨ (s.client j).toServer ≠ [] then program.onError .failed .done else .done

/-- The next statement of a client. -/
def clientMain (program : Program) (s : State N) (j : Fin N) (ok : Bool) : Option (State N) :=
  let c := s.client j
  match c.pc with
  | .socket => some (s.setClient j (c.goto (if ok then .connect else .failed)))
  | .connect =>
    if ok ∧ s.listens then
      if s.line.length ≤ program.backlog then
        some ({ s with line := s.line ++ [j] }.setClient j (c.goto .write))
      else none
    else some (s.setClient j (c.goto .failed))
  | .write =>
    if s.ended then
      -- over TCP the first bytes may still be sent, and are lost
      some (s.setClient j (c.goto (program.onError .killed (if ok then .read else .killed))))
    else if ok then some (s.setClient j { c with pc := .read, toServer := message })
    else some (s.setClient j (c.goto (program.onError .failed .read)))
  | .read =>
    if ok then
      if c.toClient ≠ [] then
        some (s.setClient j { c with
          pc := .done, out := c.out ++ [program.shown c.toClient],
          toClient := c.toClient.drop (program.bufferSize - 1) })
      else if s.ended then some (s.setClient j (c.goto (s.hungUp program j)))
      else none
    else some (s.setClient j (c.goto (program.onError .failed .done)))
  | .done | .failed | .killed => none

end State

def step (program : Program) (s : State N) : Action N → Option (State N)
  | .server ok => s.serverMain program ok
  | .client j ok => s.clientMain program j ok

end UnixLessons.Connections

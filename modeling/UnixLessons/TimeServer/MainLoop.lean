import UnixLessons.TimeServer.Requests
import UnixLessons.Transition.Run

/-!
# The main loop of the time server

The server waits with `select` for connections and datagrams together. In one round it
serves at most one connection and then at most one datagram, those that were reported. To
serve a connection it reads from it, and that blocks until the client sends something or
closes the connection. The clients are free to do what they like at any moment.

## Main definitions

* `Server`, `step` — the server with its sockets, and the moves of server and clients
* `Server.log` — what was served, in order
-/

namespace UnixLessons.TimeServer

open Text

/-- Where the main loop is: with what `select` reported of the UDP socket, once it has
returned. -/
inductive Pc
  | select
  | accept (udpReady : Bool)
  | read (conn : ℕ) (udpReady : Bool)
  | udp
deriving DecidableEq

/-- A connection as its client sees it: what it has sent, how much of this the server has not
read, and whether it has closed its side. -/
structure Connection where
  address : Address
  sent : List Char
  unread : List Char
  closed : Bool
deriving DecidableEq

/-- One call of a handler, with the outcomes of its system calls. A connection may be lost in a
failed `accept`. -/
inductive Entry
  | tcp (conn : ℕ) (client : Address) (received : Option (List Char)) (time : CString)
  | acceptFailed (lost : Option ℕ)
  | udp (received : Option (Address × List Char)) (time : CString)
deriving DecidableEq

namespace Entry

/-- What the handler prints and sends. -/
def events : Entry → List Event
  | .tcp _ client received time => handleTcpClient (some (client, received)) time
  | .acceptFailed _ => handleTcpClient none []
  | .udp received time => handleUdpClient received time

/-- The connection that is done with. -/
def conn : Entry → Option ℕ
  | .tcp conn _ _ _ => some conn
  | .acceptFailed lost => lost
  | .udp _ _ => none

/-- The datagram that was received. -/
def datagram : Entry → Option (Address × List Char)
  | .udp received _ => received
  | _ => none

end Entry

/-- The server: its place in the loop, all connections in the order in which they were made,
those waiting for `accept`, the datagrams that wait, all datagrams that have ever arrived, and
what was served. -/
structure Server where
  pc : Pc
  conns : List Connection
  backlog : List ℕ
  datagrams : List (Address × List Char)
  arrived : List (Address × List Char)
  log : List Entry
deriving DecidableEq

/-- A move of a client, or a system call of the server with its outcome. -/
inductive Action
  | connect (client : Address)
  | send (conn : ℕ) (bytes : List Char)
  | close (conn : ℕ)
  | sendDatagram (client : Address) (bytes : List Char)
  | select
  | selectFails
  | accept
  | acceptFails (lost : Bool)
  | read (time : CString)
  | readFails
  | recvfrom (time : CString)
  | recvfromFails
deriving DecidableEq

namespace Server

def init : Server := ⟨.select, [], [], [], [], []⟩

/-- A live connection changes. -/
def updateConn (s : Server) (conn : ℕ) (f : Connection → Connection) : Option Server :=
  match s.conns[conn]? with
  | some c => if c.closed then none else some { s with conns := s.conns.set conn (f c) }
  | none => none

/-- The main loop goes on behind its first `if`. -/
def afterTcp (s : Server) (udpReady : Bool) (entry : Entry) : Server :=
  { s with pc := if udpReady then .udp else .select, log := s.log ++ [entry] }

/-- `select` reports the sockets that can be read from, and blocks if there are none. -/
def select (s : Server) : Option Server :=
  if s.backlog ≠ [] then some { s with pc := .accept (!s.datagrams.isEmpty) }
  else if s.datagrams ≠ [] then some { s with pc := .udp }
  else none

/-- `read` blocks as long as nothing is there of an open connection. -/
def read (s : Server) (conn : ℕ) (udpReady : Bool) (time : CString) : Option Server :=
  match s.conns[conn]? with
  | some c =>
    if c.unread = [] ∧ ¬ c.closed then none
    else
      let bytes := c.unread.take (bufferSize - 1)
      let s := { s with
        conns := s.conns.set conn { c with unread := c.unread.drop (bufferSize - 1) } }
      some (s.afterTcp udpReady (.tcp conn c.address (some bytes) time))
  | none => none

def recvfrom (s : Server) (time : CString) : Option Server :=
  match s.datagrams with
  | (client, bytes) :: datagrams =>
    some { s with
      pc := .select, datagrams
      log := s.log ++ [.udp (some (client, readDatagram bytes)) time] }
  | [] => none

end Server

open Server in
/-- One move; `none` when it is not possible. -/
def step (s : Server) : Action → Option Server
  | .connect client => some { s with
      conns := s.conns ++ [⟨client, [], [], false⟩], backlog := s.backlog ++ [s.conns.length] }
  | .send conn bytes => s.updateConn conn fun c =>
      { c with sent := c.sent ++ bytes, unread := c.unread ++ bytes }
  | .close conn => s.updateConn conn fun c => { c with closed := true }
  | .sendDatagram client bytes => some { s with
      datagrams := s.datagrams ++ [(client, bytes)], arrived := s.arrived ++ [(client, bytes)] }
  | .select =>
    match s.pc with
    | .select => s.select
    | _ => none
  | .selectFails =>
    match s.pc with
    | .select => some s
    | _ => none
  | .accept =>
    match s.pc, s.backlog with
    | .accept udpReady, conn :: backlog => some { s with pc := .read conn udpReady, backlog }
    | _, _ => none
  | .acceptFails lost =>
    match s.pc, s.backlog, lost with
    | .accept udpReady, conn :: backlog, true =>
      some ({ s with backlog }.afterTcp udpReady (.acceptFailed (some conn)))
    | .accept udpReady, _, false => some (s.afterTcp udpReady (.acceptFailed none))
    | _, _, _ => none
  | .read time =>
    match s.pc with
    | .read conn udpReady => s.read conn udpReady time
    | _ => none
  | .readFails =>
    match s.pc with
    | .read conn udpReady =>
      s.conns[conn]?.map fun c => s.afterTcp udpReady (.tcp conn c.address none [])
    | _ => none
  | .recvfrom time =>
    match s.pc with
    | .udp => s.recvfrom time
    | _ => none
  | .recvfromFails =>
    match s.pc with
    | .udp => some { s with pc := .select, log := s.log ++ [.udp none []] }
    | _ => none

end UnixLessons.TimeServer

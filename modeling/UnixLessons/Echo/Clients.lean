import UnixLessons.Echo.Numbers
import UnixLessons.Text.Lines
import UnixLessons.Transition.Run

/-!
# The echo server and its clients

Each client reads lines from its standard input, sends them to the server and waits
for the reply to each. It says good-bye when it is told to exit or is interrupted.
Clients are told apart by the addresses of their sockets.

`step` is the interleaving of the server and the clients over a network that loses
nothing and keeps the order of what is sent between two of them. A datagram of a
client may arrive at any time after it was sent, before or after those of others.
-/

namespace UnixLessons.Echo

open Text Transition

/-- The notice of a server that is shut down. -/
def serverShutdown : CString := "SERVER_SHUTDOWN".toList

/-- Where a client is in its loop: at `fgets`, in `recvfrom`, or at its end. -/
inductive ClientPc where
  | typing
  | blocked
  | stopped
deriving DecidableEq

/-- A client with the rest of its standard input and the datagrams on their way from
and to it. The histories `sent` and `answers`, of the messages of its loop and of
the replies addressed to it, are read by no statement. -/
structure Peer where
  pc : ClientPc
  stdin : CString
  toServer : List CString
  toClient : List CString
  sent : List CString
  answers : List CString

/-- The history of the server and the clients. -/
structure Network where
  history : History
  peer : Key → Peer

/-- The server and all clients have started; what the users type is given. -/
def start (stdin : Key → CString) : Network where
  history := .zero
  peer k := ⟨.typing, stdin k, [], [], [], []⟩

/-- `signal_handler` of the client. -/
def Peer.signalHandler (x : Peer) : Peer :=
  { x with toServer := x.toServer ++ [clientShutdown], pc := .stopped }

/-- What the client makes of a line: the string in its buffer, without the newline. -/
def message (line : CString) : CString := removeNewline (cstr line)

/-- One round of the client loop up to `recvfrom`. -/
def Peer.readMessage (x : Peer) : Peer :=
  match fgets bufferSize x.stdin with
  | none => { x with pc := .stopped }
  | some (line, stdin) =>
    if message line = [] then { x with stdin }
    else if message line = "exit".toList then { x with stdin }.signalHandler
    else
      { x with
        stdin
        toServer := x.toServer ++ [message line]
        sent := x.sent ++ [message line]
        pc := .blocked }

/-- `recvfrom` of the client and what follows in the loop. -/
def Peer.receive (x : Peer) : Option Peer :=
  match x.toClient with
  | [] => none
  | reply :: toClient =>
    (stringIn (received bufferSize reply)).map fun text =>
      { x with toClient, pc := if text = serverShutdown then .stopped else .typing }

/-- Who moves next. -/
inductive Action where
  | type (k : Key)
  | serve (k : Key)
  | receive (k : Key)
  | interrupt (k : Key)
deriving DecidableEq

namespace Network

def setPeer (s : Network) (k : Key) (x : Peer) : Network :=
  { s with peer := Function.update s.peer k x }

/-- The server receives the next datagram of client `k` and sends its reply. -/
def serve (s : Network) (k : Key) : Option Network :=
  match (s.peer k).toServer with
  | [] => none
  | payload :: toServer =>
    (Echo.serve s.history ⟨k.1, k.2, payload⟩).map fun r =>
      { s.setPeer k { s.peer k with
          toServer
          toClient := (s.peer k).toClient ++ r.2.toList
          answers := (s.peer k).answers ++ r.2.toList } with
        history := r.1 }

end Network

/-- One step of the server or of a client. -/
def step (s : Network) : Action → Option Network
  | .type k =>
    if (s.peer k).pc = .typing then some (s.setPeer k (s.peer k).readMessage) else none
  | .serve k => s.serve k
  | .receive k =>
    if (s.peer k).pc = .blocked then (s.peer k).receive.map (s.setPeer k) else none
  | .interrupt k =>
    if (s.peer k).pc = .stopped then none else some (s.setPeer k (s.peer k).signalHandler)

/-! ### What a user types -/

/-- The messages the client loop makes of its standard input, up to the end or to
`exit`. -/
def messages (stdin : CString) : List CString :=
  match _h : fgets bufferSize stdin with
  | none => []
  | some (line, rest) =>
    if message line = [] then messages rest
    else if message line = "exit".toList then []
    else message line :: messages rest
termination_by stdin.length
decreasing_by all_goals exact length_rest_lt (by decide : 1 < bufferSize) ‹_›

variable {stdin line rest : CString}

theorem messages_none (h : fgets bufferSize stdin = none) : messages stdin = [] := by
  rw [messages]
  split
  · rfl
  · rename_i heq
    rw [h] at heq
    cases heq

theorem messages_some (h : fgets bufferSize stdin = some (line, rest)) :
    messages stdin =
      if message line = [] then messages rest
      else if message line = "exit".toList then []
      else message line :: messages rest := by
  rw [messages]
  split
  · rename_i heq
    rw [h] at heq
    cases heq
  · rename_i heq
    rw [h] at heq
    cases heq
    rfl

/-- A message fits the receive buffer of the server. -/
theorem length_message_lt (h : fgets bufferSize stdin = some (line, rest)) :
    (message line).length < bufferSize := by
  have hline := length_fgets_lt (by decide) h
  have hcut : (message line).length ≤ (cstr line).length := (List.takeWhile_prefix _).length_le
  exact lt_of_le_of_lt (hcut.trans (length_cstr_le line)) hline

end UnixLessons.Echo

import UnixLessons.ServicePool.Server

/-!
# The one-shot time server

The main thread accepts three clients. For each it creates a service thread with a
port of its own and sends the client the endpoint; the thread opens a socket,
binds it to the port, listens, accepts one connection, answers it and ends. The
first two threads are detached, the third is joined, and when it has ended the
process ends.

`step` is the interleaving of the main thread, the service threads and the
clients. A call that may fail has its outcome in the action.
-/

namespace UnixLessons.OneShot

open Text
open ServicePool (endpoint parseEndpoint)

def maxClients : ℕ := 3

def bufferSize : ℕ := 256

def mainPort : ℤ := 10888

/-- The first port `get_free_port` returns. -/
def firstPort : ℤ := 10900

/-- The largest `int`. -/
def maxInt : ℤ := 2 ^ 31 - 1

/-- The port that is left of a number in an address. -/
def htons (port : ℤ) : ℤ := port % 2 ^ 16

/-! ### The parties -/

/-- Where a service thread is in its code. -/
inductive ThreadPc where
  | socket
  | bind
  | listen
  | accept
  | read (c : ℕ)
  | reply (c : ℕ) (buffer : CString)
  | close (c : ℕ)
  | closeService
  | ended
deriving DecidableEq

/-- A service thread with its port and the connections that wait at its socket. -/
structure Service where
  servicePort : ℤ
  pc : ThreadPc
  pending : List ℕ
  detached : Bool
deriving DecidableEq

/-- The socket of the thread takes connections. -/
def ThreadPc.listening : ThreadPc → Bool
  | .accept | .read _ | .reply _ _ | .close _ | .closeService => true
  | .socket | .bind | .listen | .ended => false

/-- The socket of the thread has its port. -/
def ThreadPc.bound : ThreadPc → Bool
  | .listen | .accept | .read _ | .reply _ _ | .close _ | .closeService => true
  | .socket | .bind | .ended => false

/-- The next statement of the thread is its last: a call fails, or its work is
done. -/
def ThreadPc.ends (ok : Bool) : ThreadPc → Bool
  | .socket | .bind | .listen | .accept => !ok
  | .closeService => true
  | .read _ | .reply _ _ | .close _ | .ended => false

/-- Where a client is in its code; `handed port` has read the endpoint, and `lost`
has read nothing and goes on with an address it never got. -/
inductive ClientPc where
  | start
  | waiting
  | lost
  | handed (port : ℤ)
  | failed
  | connected
  | asked
  | done
deriving DecidableEq

/-- A client with what has been sent over its connections. -/
structure Client where
  pc : ClientPc
  vanished : Bool
  inbox : Option CString
  /-- The main thread has closed the connection. -/
  closed : Bool
  request : CString
  replied : Bool
  hungUp : Bool
deriving DecidableEq

/-- Where the main thread is, with its client and the thread it has created. -/
inductive MainPc where
  | accept
  | create (c : ℕ)
  | send (c k : ℕ)
  | close (c k : ℕ)
  | keep (k : ℕ)
  | count
  | join
  | report
  | exited
deriving DecidableEq

/-- An endpoint that was sent: to whom, of which thread, and whether the socket of
the thread took connections at that moment. -/
structure Handover where
  client : ℕ
  thread : ℕ
  ready : Bool
deriving DecidableEq

/-- The variables of the process, its threads in the order of their creation, and
the clients. The history `handed` is read by no statement. -/
structure Server where
  mainAt : MainPc
  clientsServed : ℕ
  currentPort : ℤ
  thirdThread : Option ℕ
  threads : List Service
  backlog : List ℕ
  client : ℕ → Client
  handed : List Handover

/-- The server listens on its main port. -/
def start : Server where
  mainAt := .accept
  clientsServed := 0
  currentPort := firstPort
  thirdThread := none
  threads := []
  backlog := []
  client _ := ⟨.start, false, none, false, [], false, false⟩
  handed := []

namespace Server

def mainGoto (s : Server) (pc : MainPc) : Server := { s with mainAt := pc }

def setThread (s : Server) (k : ℕ) (th : Service) : Server :=
  { s with threads := s.threads.set k th }

def setClient (s : Server) (c : ℕ) (x : Client) : Server :=
  { s with client := Function.update s.client c x }

/-- The connections of the clients are closed from the other side. -/
def hangUp (s : Server) (clients : List ℕ) : Server :=
  { s with
    client := fun c => if c ∈ clients then { s.client c with hungUp := true } else s.client c }

/-- The socket of thread `k` takes connections. -/
def ready (s : Server) (k : ℕ) : Bool := s.threads[k]?.any (·.pc.listening)

/-- The port belongs to the main socket or to that of a thread. Port zero asks for
any free port. -/
def taken (s : Server) (port : ℤ) : Bool :=
  htons port != 0 && (htons port == mainPort ||
    s.threads.any fun th => th.pc.bound && htons th.servicePort == htons port)

/-- Thread `k` has ended. -/
def Ended (s : Server) (k : ℕ) : Prop := s.threads[k]?.map Service.pc = some .ended

instance (s : Server) (k : ℕ) : Decidable (s.Ended k) := inferInstanceAs (Decidable (_ = _))

end Server

/-! ### The threads -/

/-- The next statement of the main thread, but for `pthread_create`. -/
def mainStep (s : Server) : Option Server :=
  match s.mainAt with
  | .accept =>
    match s.backlog with
    | [] => none
    | c :: backlog => some { s with backlog, mainAt := .create c }
  | .create _ => none
  | .send c k =>
    s.threads[k]?.map fun th =>
      { s.setClient c { s.client c with inbox := some (endpoint th.servicePort) } with
        mainAt := .close c k
        handed := s.handed ++ [⟨c, k, s.ready k⟩] }
  | .close c k => some ((s.setClient c { s.client c with closed := true }).mainGoto (.keep k))
  | .keep k =>
    if s.clientsServed = 2 then some { s with mainAt := .count, thirdThread := some k }
    else s.threads[k]?.map fun th => (s.setThread k { th with detached := true }).mainGoto .count
  | .count =>
    some { s with
      clientsServed := s.clientsServed + 1
      mainAt := if s.clientsServed + 1 < maxClients then .accept else .join }
  /- It waits for the third thread. -/
  | .join => s.thirdThread.bind fun k => if s.Ended k then some (s.mainGoto .report) else none
  | .report => some (s.mainGoto .exited)
  | .exited => none

/-- `pthread_create` for the client that was accepted. The port is used up in any
case; behind the largest `int` there is none. -/
def create (s : Server) (ok : Bool) : Option Server :=
  match s.mainAt with
  | .create c =>
    if s.currentPort < maxInt then
      let s := { s with currentPort := s.currentPort + 1 }
      if ok then
        some { s with
          threads := s.threads ++ [⟨s.currentPort - 1, .socket, [], false⟩]
          mainAt := .send c s.threads.length }
      else some ((s.setClient c { s.client c with closed := true }).mainGoto .accept)
    else none
  | _ => none

/-- A connection waiting at the main socket is aborted, and `accept` fails. -/
def abortBacklog (s : Server) : Option Server :=
  match s.mainAt, s.backlog with
  | .accept, c :: backlog =>
    some ({ s with backlog }.setClient c { s.client c with closed := true })
  | _, _ => none

/-- The next statement of service thread `k`; `ok` is the outcome of a call that
may fail. A thread that ends closes its socket, and with it the connections that
wait there. -/
def serviceServerThread (s : Server) (k : ℕ) (th : Service) (ok : Bool) : Option Server :=
  let goto (pc : ThreadPc) := s.setThread k { th with pc }
  let giveUp := (goto .ended).hangUp th.pending
  match th.pc with
  | .socket => some (if ok then goto .bind else giveUp)
  | .bind =>
    if ok then if s.taken th.servicePort then none else some (goto .listen) else some giveUp
  | .listen => some (if ok then goto .accept else giveUp)
  | .accept =>
    if ok then
      match th.pending with
      | [] => none
      | c :: pending => some (s.setThread k { th with pc := .read c, pending })
    else some giveUp
  | .read c =>
    if (s.client c).request ≠ [] ∨ (s.client c).vanished then
      some (goto (.reply c ((s.client c).request.take (bufferSize - 1))))
    else none
  | .reply c buffer =>
    if "TIME".toList.isPrefixOf buffer then
      some ((goto (.close c)).setClient c { s.client c with replied := true })
    else some (goto (.close c))
  | .close c => some ((goto .closeService).setClient c { s.client c with hungUp := true })
  | .closeService => some giveUp
  | .ended => none

/-! ### The clients -/

/-- The thread whose socket takes connections to a port. There is no port zero,
and none is left when the process has ended. -/
def listener (s : Server) (port : ℤ) : Option ℕ :=
  if s.mainAt = .exited ∨ htons port = 0 then none
  else s.threads.findIdx? fun th => th.pc.listening && htons th.servicePort == htons port

/-- The next statement of client `c`. -/
def clientStep (s : Server) (c : ℕ) : Option Server :=
  let goto (pc : ClientPc) := s.setClient c { s.client c with pc }
  match (s.client c).pc with
  | .start => some { goto .waiting with backlog := s.backlog ++ [c] }
  | .waiting =>
    match (s.client c).inbox with
    | none => if (s.client c).closed ∨ s.mainAt = .exited then some (goto .lost) else none
    | some buffer =>
      some (goto (match parseEndpoint buffer with
        | some e => .handed e.2
        | none => .lost))
  | .handed port =>
    match listener s port with
    | none => some (goto .failed)
    | some k =>
      s.threads[k]?.map fun th =>
        (goto .connected).setThread k { th with pending := th.pending ++ [c] }
  | .connected => some (s.setClient c { s.client c with pc := .asked, request := "TIME".toList })
  | .asked =>
    if (s.client c).replied ∨ (s.client c).hungUp ∨ s.mainAt = .exited then some (goto .done)
    else none
  | .lost | .failed | .done => none

/-! ### The system -/

/-- Who moves next. -/
inductive Action where
  | main
  | create (ok : Bool)
  | abortBacklog
  | service (k : ℕ) (ok : Bool)
  | client (c : ℕ)
  | vanish (c : ℕ)
deriving DecidableEq

/-- One statement of one party. The threads run until the process ends, a client
until it vanishes. -/
def step (s : Server) : Action → Option Server
  | .main => mainStep s
  | .create ok => create s ok
  | .abortBacklog => abortBacklog s
  | .service k ok =>
    if s.mainAt = .exited then none
    else s.threads[k]?.bind fun th => serviceServerThread s k th ok
  | .client c => if (s.client c).vanished then none else clientStep s c
  | .vanish c => some (s.setClient c { s.client c with vanished := true })

end UnixLessons.OneShot

import Mathlib.Data.Fin.Basic
import UnixLessons.Text.Scanf
import UnixLessons.Transition.Run

/-!
# The pool of service servers

The main server hands each client the endpoint of a free service server, or an
error when none is free. A service server is marked busy by the main thread and
free again by its own thread, after the client it accepted has been answered.

`step` is the interleaving of the main thread, the service threads and the
clients. Clients are numbered; a client asks the main server once, connects to
the port it was given and sends `TIME`. It may vanish at any point.
-/

namespace UnixLessons.ServicePool

open Text

def startPort : ℤ := 10101

def maxClients : ℕ := 3

def bufferSize : ℕ := 256

inductive Thread where
  | main
  | service (i : Fin maxClients)
deriving DecidableEq

/-- A service server. The listening socket is closed again when a later step of
its initialisation fails, and only the last step starts the thread. -/
structure ServiceServer where
  port : ℤ
  isBusy : Bool
  mutex : Option Thread
  listening : Bool
  started : Bool
deriving DecidableEq

/-- Where a client is in its code; `handed port` has read the endpoint. -/
inductive ClientPc where
  | start
  | waiting
  | refused
  | handed (port : ℤ)
  | failed
  | connected
  | asked
  | done
deriving DecidableEq

/-- A client with what has been sent over its connections. -/
structure Client where
  pc : ClientPc
  vanished : Bool
  inbox : Option CString
  request : CString
  replied : Bool
  hungUp : Bool
deriving DecidableEq

inductive MainPc where
  | accept
  | lock (c i : ℕ)
  | test (c : ℕ) (i : Fin maxClients)
  | set (c : ℕ) (i : Fin maxClients)
  | unlockFound (c : ℕ) (i : Fin maxClients)
  | unlockBusy (c : ℕ) (i : Fin maxClients)
  | send (c : ℕ) (i : Fin maxClients)
  | sendNone (c : ℕ)
  | close
deriving DecidableEq

inductive ThreadPc where
  | accept
  | read (c : ℕ)
  | reply (c : ℕ) (buffer : CString)
  | close (c : ℕ)
  | lock (c : ℕ)
  | reset (c : ℕ)
  | unlock
deriving DecidableEq

/-- The servers, the threads, the clients and the connections that wait to be
accepted. The history `reserved` has the clients each server was reserved for and
has not been reset after; no statement reads it. -/
structure Pool where
  server : Fin maxClients → ServiceServer
  mainAt : MainPc
  threadAt : Fin maxClients → ThreadPc
  backlog : List ℕ
  pending : Fin maxClients → List ℕ
  client : ℕ → Client
  reserved : Fin maxClients → List ℕ

namespace Pool

def mainGoto (s : Pool) (pc : MainPc) : Pool := { s with mainAt := pc }

def threadGoto (s : Pool) (i : Fin maxClients) (pc : ThreadPc) : Pool :=
  { s with threadAt := Function.update s.threadAt i pc }

def setMutex (s : Pool) (i : Fin maxClients) (holder : Option Thread) : Pool :=
  { s with server := Function.update s.server i { s.server i with mutex := holder } }

def setBusy (s : Pool) (i : Fin maxClients) (isBusy : Bool) : Pool :=
  { s with server := Function.update s.server i { s.server i with isBusy } }

def setClient (s : Pool) (c : ℕ) (client : Client) : Pool :=
  { s with client := Function.update s.client c client }

end Pool

/-! ### Initialisation -/

/-- How the initialisation of a service server ends. -/
inductive InitOutcome where
  | socketFails
  | bindFails
  | listenFails
  | createFails
  | ok
deriving DecidableEq

def initServer (i : Fin maxClients) (outcome : InitOutcome) : ServiceServer where
  port := startPort + i
  isBusy := false
  mutex := none
  listening := outcome = .ok
  started := outcome = .ok

def initServers (outcome : Fin maxClients → InitOutcome) : Pool where
  server i := initServer i (outcome i)
  mainAt := .accept
  threadAt _ := .accept
  backlog := []
  pending _ := []
  client _ := ⟨.start, false, none, [], false, false⟩
  reserved _ := []

/-! ### Messages of the main server -/

def noServers : CString := "ERROR: No free servers available\n".toList

/-- The endpoint as the main server prints it. -/
def endpoint (port : ℤ) : CString :=
  snprintf bufferSize ("127.0.0.1:".toList ++ decimal port ++ ['\n'])

/-- What `%[^:]:%d` reads from the endpoint; `none` when a conversion fails or the
address does not fit its buffer. -/
def parseEndpoint (buffer : CString) : Option (CString × ℤ) :=
  match buffer.span (· ≠ ':') with
  | (ip, ':' :: rest) =>
    if ip = [] ∨ 16 ≤ ip.length then none else (scanNumber rest).1.map fun port => (ip, port)
  | _ => none

/-- The endpoint is read back as the address and the port. -/
theorem parseEndpoint_endpoint {port : ℤ} (hlow : -2 ^ 31 ≤ port) (hhigh : port < 2 ^ 31) :
    parseEndpoint (endpoint port) = some ("127.0.0.1".toList, port) := by
  have hlength : (decimal port).length ≤ 11 := length_decimal_le (by decide) (by omega)
  have hfits : ("127.0.0.1:".toList ++ decimal port ++ ['\n']).length < bufferSize := by
    simp [bufferSize]
    omega
  rw [endpoint, snprintf_eq_self hfits]
  have hspan : ("127.0.0.1:".toList ++ decimal port ++ ['\n']).span (· ≠ ':') =
      ("127.0.0.1".toList, ':' :: (decimal port ++ ['\n'])) := by
    simp [List.span_eq_takeWhile_dropWhile]
  rw [parseEndpoint, hspan]
  simp [scanNumber_line hlow hhigh []]

/-! ### The threads -/

/-- The next statement of the main thread: the accept loop with
`find_free_server`, whose loop is at `lock c i` for server `i`. -/
def mainStep (s : Pool) : Option Pool :=
  match s.mainAt with
  | .accept =>
    match s.backlog with
    | [] => none
    | c :: backlog => some { s with backlog, mainAt := .lock c 0 }
  | .lock c i =>
    if h : i < maxClients then
      match (s.server ⟨i, h⟩).mutex with
      | none => some ((s.setMutex ⟨i, h⟩ (some .main)).mainGoto (.test c ⟨i, h⟩))
      | some _ => none
    else some (s.mainGoto (.sendNone c))
  | .test c i =>
    some (s.mainGoto (if (s.server i).isBusy = false then .set c i else .unlockBusy c i))
  | .set c i =>
    some { (s.setBusy i true).mainGoto (.unlockFound c i) with
      reserved := Function.update s.reserved i (s.reserved i ++ [c]) }
  | .unlockFound c i => some ((s.setMutex i none).mainGoto (.send c i))
  | .unlockBusy c i => some ((s.setMutex i none).mainGoto (.lock c (i + 1)))
  | .send c i =>
    some ((s.setClient c { s.client c with inbox := some (endpoint (s.server i).port) }).mainGoto
      .close)
  | .sendNone c =>
    some ((s.setClient c { s.client c with inbox := some noServers }).mainGoto .close)
  | .close => some (s.mainGoto .accept)

/-- The next statement of a service thread. A read waits for the request or for
the client to be gone. -/
def serviceServerThread (s : Pool) (i : Fin maxClients) : Option Pool :=
  match s.threadAt i with
  | .accept =>
    match s.pending i with
    | [] => none
    | c :: pending =>
      some ({ s with pending := Function.update s.pending i pending }.threadGoto i (.read c))
  | .read c =>
    if (s.client c).request ≠ [] ∨ (s.client c).vanished then
      some (s.threadGoto i (.reply c ((s.client c).request.take (bufferSize - 1))))
    else none
  | .reply c buffer =>
    if "TIME".toList.isPrefixOf buffer then
      some ((s.setClient c { s.client c with replied := true }).threadGoto i (.close c))
    else some (s.threadGoto i (.close c))
  | .close c => some ((s.setClient c { s.client c with hungUp := true }).threadGoto i (.lock c))
  | .lock c =>
    match (s.server i).mutex with
    | none => some ((s.setMutex i (some (.service i))).threadGoto i (.reset c))
    | some _ => none
  | .reset c =>
    some { (s.setBusy i false).threadGoto i .unlock with
      reserved := Function.update s.reserved i ((s.reserved i).erase c) }
  | .unlock => some ((s.setMutex i none).threadGoto i .accept)

/-- A connection waiting at a service server is aborted, and `accept` fails. -/
def abortPending (s : Pool) (i : Fin maxClients) : Option Pool :=
  match s.threadAt i, s.pending i with
  | .accept, c :: pending =>
    some ({ s with pending := Function.update s.pending i pending }.setClient c
      { s.client c with hungUp := true })
  | _, _ => none

/-- A connection waiting at the main server is aborted, and `accept` fails. -/
def abortBacklog (s : Pool) : Option Pool :=
  match s.mainAt, s.backlog with
  | .accept, c :: backlog =>
    some ({ s with backlog }.setClient c { s.client c with hungUp := true })
  | _, _ => none

/-! ### The clients -/

/-- The service server that listens on a port. -/
def listener (s : Pool) (port : ℤ) : Option (Fin maxClients) :=
  (List.finRange maxClients).find? fun i => (s.server i).listening && (s.server i).port == port

/-- The next statement of client `c`. -/
def clientStep (s : Pool) (c : ℕ) : Option Pool :=
  let goto (pc : ClientPc) := s.setClient c { s.client c with pc }
  match (s.client c).pc with
  | .start => some { goto .waiting with backlog := s.backlog ++ [c] }
  | .waiting =>
    match (s.client c).inbox with
    | none => none
    | some buffer =>
      if "ERROR".toList.isPrefixOf buffer then some (goto .refused)
      else (parseEndpoint buffer).map fun e => goto (.handed e.2)
  | .handed port =>
    match listener s port with
    | none => some (goto .failed)
    | some i =>
      some { goto .connected with pending := Function.update s.pending i (s.pending i ++ [c]) }
  | .connected => some (s.setClient c { s.client c with pc := .asked, request := "TIME".toList })
  | .asked => if (s.client c).replied ∨ (s.client c).hungUp then some (goto .done) else none
  | .refused | .failed | .done => none

/-- Who moves next. -/
inductive Action where
  | main
  | abortBacklog
  | service (i : Fin maxClients)
  | abortPending (i : Fin maxClients)
  | client (c : ℕ)
  | vanish (c : ℕ)
deriving DecidableEq

/-- One statement of one party. A service thread runs only if it was started, a
client only until it vanishes. -/
def step (s : Pool) : Action → Option Pool
  | .main => mainStep s
  | .abortBacklog => abortBacklog s
  | .service i => if (s.server i).started then serviceServerThread s i else none
  | .abortPending i => if (s.server i).started then abortPending s i else none
  | .client c => if (s.client c).vanished then none else clientStep s c
  | .vanish c => some (s.setClient c { s.client c with vanished := true })

end UnixLessons.ServicePool

import UnixLessons.Text.Decimal
import UnixLessons.Threads.Mutex
import UnixLessons.Transition.Run

/-!
# The time server with a client queue

The main thread accepts clients, reads their message and puts both into a ring
of ten cells; service threads take clients out, answer them and close their
connections. One mutex and one condition variable guard the ring, and each
service thread has a busy flag with a mutex and a condition variable of its own.

`step` is the interleaving of the statements of all threads. Connections are
numbered in the order in which they are accepted. A descriptor is a number the
kernel may give out again once it has been closed, so a descriptor is looked up
in the table of open descriptors each time it is used.

A client may reset its connection at any time. The `send` that comes after it
fails, or it raises `SIGPIPE`, which ends the process. The text that `ctime`
returns stands in one buffer for all threads.
-/

namespace UnixLessons.ClientQueue

open Text

variable {n : ℕ}

def bufferSize : ℕ := 256

def queueSize : ℕ := 10

/-- An address and a port. -/
abbrev Addr := UInt32 × UInt16

/-- A cell of the queue. -/
structure Item where
  clientFd : ℕ
  clientAddr : Addr
  message : CString
deriving DecidableEq

instance : Inhabited Item := ⟨⟨0, (0, 0), []⟩⟩

def errorQueueFull : CString := "ERROR: Queue full\n".toList

def errorStringTime : CString := "ERROR: STRING TIME\n".toList

inductive Thread (n : ℕ) where
  | main
  | service (i : Fin n)
deriving DecidableEq

inductive Mutex (n : ℕ) where
  | queue
  | server (i : Fin n)
deriving DecidableEq

/-- The statements of `enqueue_client` up to the one that settles what becomes of
the client: the move of the rear, or the closing of the connection. -/
inductive EnqueuePc where
  | lock
  | test
  | writeFd
  | writeAddr
  | writeMessage
  | advance
  | sendFull
  | closeFull
deriving DecidableEq

/-- Where the main thread is, with its locals. The number `k` of the connection
is read by no statement. -/
inductive MainPc where
  | accept
  | read (k : ℕ) (fd : ℕ) (addr : Addr)
  | enqueue (k : ℕ) (it : Item) (pc : EnqueuePc)
  | increment
  | signal
  | unlock
deriving DecidableEq

/-- The statements of a service thread from the move of the front to the closing
of the connection. -/
inductive HoldPc where
  | decrement
  | unlock
  | compare
  | ctime
  | sendTime
  | sendError
  | close
deriving DecidableEq

/-- Where a service thread is, with its locals. -/
inductive ThreadPc where
  | serverLock
  | serverTest
  | serverAsleep
  | serverSet
  | serverUnlock
  | lock
  | test
  | asleep
  | copyFd
  | copyAddr (fd : ℕ)
  | copyMessage (fd : ℕ) (addr : Addr)
  | advance (it : Item)
  | holding (k : ℕ) (it : Item) (pc : HoldPc)
  | releaseLock
  | reset
  | releaseSignal
  | releaseUnlock
deriving DecidableEq

/-- What `send` does on a connection that its client has reset: it fails, or it
raises `SIGPIPE` when the error has been reported before. -/
inductive Broken where
  | error
  | sigpipe
deriving DecidableEq

/-- A connection: what its client sent, what was sent back, how often it was
closed, and whether its client has reset it. No statement reads `time`, which is
what `ctime` has returned when it was called for this client. -/
structure Conn where
  item : Item
  replies : List CString
  closes : ℕ
  broken : Option Broken
  time : Option CString
deriving DecidableEq

/-- A connection that has just been accepted. -/
def Conn.accepted (fd : ℕ) (addr : Addr) : Conn := ⟨⟨fd, addr, []⟩, [], 0, none, none⟩

/-- The shared variables, the threads and the connections; `timeText` is the
static buffer of `ctime`, and `killed` says that `SIGPIPE` has ended the process.
The histories `contents`, `accepted` and `dequeued` number the connections that
are in the queue, that ever entered it and that ever left it, in order; no
statement reads them. -/
structure Server (n : ℕ) where
  clientQueue : ℕ → Item
  queueFront : ℕ
  queueRear : ℕ
  queueCount : ℤ
  mutex : Mutex n → Option (Thread n)
  isBusy : Fin n → Bool
  mainAt : MainPc
  threadAt : Fin n → ThreadPc
  conn : ℕ → Conn
  next : ℕ
  openFd : ℕ → Option ℕ
  timeText : CString
  killed : Bool
  contents : List ℕ
  accepted : List ℕ
  dequeued : List ℕ

/-- The server after `init_servers`. -/
def initServers (n : ℕ) : Server n where
  clientQueue _ := default
  queueFront := 0
  queueRear := 0
  queueCount := 0
  mutex _ := none
  isBusy _ := false
  mainAt := .accept
  threadAt _ := .serverLock
  conn _ := ⟨default, [], 0, none, none⟩
  next := 0
  openFd _ := none
  timeText := []
  killed := false
  contents := []
  accepted := []
  dequeued := []

namespace Server

def mainGoto (s : Server n) (pc : MainPc) : Server n := { s with mainAt := pc }

def threadGoto (s : Server n) (i : Fin n) (pc : ThreadPc) : Server n :=
  { s with threadAt := Function.update s.threadAt i pc }

def lock (s : Server n) (m : Mutex n) (t : Thread n) : Server n :=
  { s with mutex := Function.update s.mutex m (some t) }

def unlock (s : Server n) (m : Mutex n) : Server n :=
  { s with mutex := Function.update s.mutex m none }

def setConn (s : Server n) (k : ℕ) (x : Conn) : Server n :=
  { s with conn := Function.update s.conn k x }

def setBusy (s : Server n) (i : Fin n) (b : Bool) : Server n :=
  { s with isBusy := Function.update s.isBusy i b }

/-- The cell at the rear. -/
def rearCell (s : Server n) : Item := s.clientQueue s.queueRear

def setRear (s : Server n) (it : Item) : Server n :=
  { s with clientQueue := Function.update s.clientQueue s.queueRear it }

/-- `send` on the connection that has the descriptor, without flags. What it
returns is not looked at. -/
def send (s : Server n) (fd : ℕ) (text : CString) : Server n :=
  match s.openFd fd with
  | some k =>
    match (s.conn k).broken with
    | none => s.setConn k { s.conn k with replies := (s.conn k).replies ++ [text] }
    | some .error => s
    | some .sigpipe => { s with killed := true }
  | none => s

/-- `close` of the connection that has the descriptor. -/
def close (s : Server n) (fd : ℕ) : Server n :=
  match s.openFd fd with
  | some k =>
    { s.setConn k { s.conn k with closes := (s.conn k).closes + 1 } with
      openFd := Function.update s.openFd fd none }
  | none => s

end Server

open Server

/-- The message asks for the time. -/
def isTime (message : CString) : Bool := "TIME".toList.isPrefixOf message

/-- A client is accepted on a descriptor that is not in use. -/
def acceptClient (s : Server n) (fd : ℕ) (addr : Addr) : Option (Server n) :=
  if s.mainAt = .accept ∧ s.openFd fd = none then
    some { s.setConn s.next (.accepted fd addr) with
      next := s.next + 1
      openFd := Function.update s.openFd fd (some s.next)
      mainAt := .read s.next fd addr }
  else none

/-- The bytes of one `read` arrive; they are the message of the client. -/
def readMessage (s : Server n) (bytes : List Char) : Option (Server n) :=
  match s.mainAt with
  | .read k fd addr =>
    let message := cstr (bytes.take (bufferSize - 1))
    some ((s.setConn k { s.conn k with item := ⟨fd, addr, message⟩ }).mainGoto
      (.enqueue k ⟨fd, addr, message⟩ .lock))
  | _ => none

/-- `enqueue_client`, up to the move of the rear or the closing of the
connection. -/
def enqueueClient (s : Server n) (k : ℕ) (it : Item) : EnqueuePc → Option (Server n)
  | .lock =>
    match s.mutex .queue with
    | none => some ((s.lock .queue .main).mainGoto (.enqueue k it .test))
    | some _ => none
  | .test =>
    some (s.mainGoto (.enqueue k it (if s.queueCount < queueSize then .writeFd else .sendFull)))
  | .writeFd =>
    some ((s.setRear { s.rearCell with clientFd := it.clientFd }).mainGoto
      (.enqueue k it .writeAddr))
  | .writeAddr =>
    some ((s.setRear { s.rearCell with clientAddr := it.clientAddr }).mainGoto
      (.enqueue k it .writeMessage))
  | .writeMessage =>
    some ((s.setRear { s.rearCell with message := it.message }).mainGoto
      (.enqueue k it .advance))
  | .advance =>
    some { s with
      mainAt := .increment
      queueRear := (s.queueRear + 1) % queueSize
      contents := s.contents ++ [k]
      accepted := s.accepted ++ [k] }
  | .sendFull => some ((s.send it.clientFd errorQueueFull).mainGoto (.enqueue k it .closeFull))
  | .closeFull => some ((s.close it.clientFd).mainGoto .unlock)

/-- The next statement of the main thread but for its calls that wait for a
client, and for `pthread_cond_signal`. -/
def mainStep (s : Server n) : Option (Server n) :=
  match s.mainAt with
  | .enqueue k it pc => enqueueClient s k it pc
  | .increment => some { s with mainAt := .signal, queueCount := s.queueCount + 1 }
  | .unlock => some ((s.unlock .queue).mainGoto .accept)
  | .accept | .read _ _ _ | .signal => none

/-- The signal wakes the threads `woken`: some that sleep, and at least one if
any does. A woken thread is about to take the mutex again. -/
def signal (s : Server n) (woken : List (Fin n)) : Option (Server n) :=
  if s.mainAt = .signal ∧ (∀ i ∈ woken, s.threadAt i = .asleep) ∧
      (woken = [] → ∀ i, s.threadAt i ≠ .asleep) then
    some { s with
      mainAt := .unlock
      threadAt := fun i => if i ∈ woken then .lock else s.threadAt i }
  else none

/-- A statement of a service thread that has taken client `k` out of the queue;
`now` is the text of the time. -/
def hold (s : Server n) (i : Fin n) (now : CString) (k : ℕ) (it : Item) :
    HoldPc → Option (Server n)
  | .decrement =>
    some { s with
      threadAt := Function.update s.threadAt i (.holding k it .unlock)
      queueCount := s.queueCount - 1 }
  | .unlock => some ((s.unlock .queue).threadGoto i (.holding k it .compare))
  | .compare =>
    some (s.threadGoto i (.holding k it (if isTime it.message then .ctime else .sendError)))
  | .ctime =>
    some { (s.setConn k { s.conn k with time := some now }).threadGoto i
        (.holding k it .sendTime) with
      timeText := now }
  | .sendTime => some ((s.send it.clientFd s.timeText).threadGoto i (.holding k it .close))
  | .sendError => some ((s.send it.clientFd errorStringTime).threadGoto i (.holding k it .close))
  | .close => some ((s.close it.clientFd).threadGoto i .releaseLock)

/-- The next statement of service thread `i`; `now` is what `ctime` writes. -/
def serviceServerThread (s : Server n) (i : Fin n) (now : CString) : Option (Server n) :=
  match s.threadAt i with
  | .serverLock =>
    match s.mutex (.server i) with
    | none => some ((s.lock (.server i) (.service i)).threadGoto i .serverTest)
    | some _ => none
  | .serverTest =>
    if s.isBusy i then some ((s.unlock (.server i)).threadGoto i .serverAsleep)
    else some (s.threadGoto i .serverSet)
  | .serverSet => some ((s.setBusy i true).threadGoto i .serverUnlock)
  | .serverUnlock => some ((s.unlock (.server i)).threadGoto i .lock)
  | .lock =>
    match s.mutex .queue with
    | none => some ((s.lock .queue (.service i)).threadGoto i .test)
    | some _ => none
  | .test =>
    if s.queueCount = 0 then some ((s.unlock .queue).threadGoto i .asleep)
    else some (s.threadGoto i .copyFd)
  | .copyFd => some (s.threadGoto i (.copyAddr (s.clientQueue s.queueFront).clientFd))
  | .copyAddr fd =>
    some (s.threadGoto i (.copyMessage fd (s.clientQueue s.queueFront).clientAddr))
  | .copyMessage fd addr =>
    some (s.threadGoto i (.advance ⟨fd, addr, (s.clientQueue s.queueFront).message⟩))
  | .advance it =>
    some { s with
      threadAt := Function.update s.threadAt i (.holding (s.contents.headD 0) it .decrement)
      queueFront := (s.queueFront + 1) % queueSize
      contents := s.contents.tail
      dequeued := s.dequeued ++ s.contents.take 1 }
  | .holding k it pc => hold s i now k it pc
  | .releaseLock =>
    match s.mutex (.server i) with
    | none => some ((s.lock (.server i) (.service i)).threadGoto i .reset)
    | some _ => none
  | .reset => some ((s.setBusy i false).threadGoto i .releaseSignal)
  | .releaseSignal => some (s.threadGoto i .releaseUnlock)
  | .releaseUnlock => some ((s.unlock (.server i)).threadGoto i .serverLock)
  | .asleep | .serverAsleep => none

/-- A sleeping thread wakes up without a signal and is about to take its mutex
again. -/
def wakeUp (s : Server n) (i : Fin n) : Option (Server n) :=
  match s.threadAt i with
  | .asleep => some (s.threadGoto i .lock)
  | .serverAsleep => some (s.threadGoto i .serverLock)
  | _ => none

/-- A client resets its connection, and its next `send` is what it makes of it. -/
def reset (s : Server n) (k : ℕ) (broken : Broken) : Option (Server n) :=
  if k < s.next ∧ (s.conn k).broken = none then
    some (s.setConn k { s.conn k with broken := some broken })
  else none

/-- Who moves next. -/
inductive Action (n : ℕ) where
  | accept (fd : ℕ) (addr : Addr)
  | read (bytes : List Char)
  | main
  | signal (woken : List (Fin n))
  | service (i : Fin n) (now : CString)
  | wakeUp (i : Fin n)
  | reset (k : ℕ) (broken : Broken)
deriving DecidableEq

/-- One statement of one thread while the process lives, or a reset. -/
def act (s : Server n) : Action n → Option (Server n)
  | .accept fd addr => acceptClient s fd addr
  | .read bytes => readMessage s bytes
  | .main => mainStep s
  | .signal woken => signal s woken
  | .service i now => serviceServerThread s i now
  | .wakeUp i => wakeUp s i
  | .reset k broken => reset s k broken

/-- After `SIGPIPE` nothing happens any more. -/
def step (s : Server n) (a : Action n) : Option (Server n) :=
  if s.killed then none else act s a

theorem act_of_step {s t : Server n} {a : Action n} (h : step s a = some t) :
    s.killed = false ∧ act s a = some t := by
  obtain ⟨hlive, hact⟩ := Option.ite_none_left_eq_some.mp h
  exact ⟨Bool.eq_false_iff.mpr hlive, hact⟩

/-! ### `send` and `close` -/

namespace Server

variable {s : Server n} {fd k : ℕ} {text : CString}

/-- What is sent to a connection that is not reset arrives. -/
theorem send_eq (hopen : s.openFd fd = some k) (h : (s.conn k).broken = none) :
    s.send fd text = s.setConn k { s.conn k with replies := (s.conn k).replies ++ [text] } := by
  rw [send, hopen]
  simp only [h]

/-- What is sent to one that is reset is lost, perhaps with the process. -/
theorem exists_send_eq (text : CString) (hopen : s.openFd fd = some k)
    (h : (s.conn k).broken ≠ none) :
    ∃ killed, s.send fd text = { s with killed } := by
  obtain ⟨broken, hbroken⟩ := Option.ne_none_iff_exists'.mp h
  rw [send, hopen]
  simp only [hbroken]
  cases broken with
  | error => exact ⟨s.killed, rfl⟩
  | sigpipe => exact ⟨true, rfl⟩

theorem close_eq (hopen : s.openFd fd = some k) :
    s.close fd = { s.setConn k { s.conn k with closes := (s.conn k).closes + 1 } with
      openFd := Function.update s.openFd fd none } := by
  rw [close, hopen]

end Server

end UnixLessons.ClientQueue

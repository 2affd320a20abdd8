import Mathlib.Logic.Function.Basic
import UnixLessons.Taxi.Driver
import UnixLessons.Transition.Run

/-!
# The taxi dispatcher and its drivers

The dispatcher is a command loop. It forks drivers, each reached through two
pipes, keeps them in an array of slots and talks to them one at a time. Before
every command it collects the drivers that have died; their slots, with the old
pids in them, are used again.

`step` is one move of the whole system: the dispatcher goes on, a driver goes on,
or a driver dies. An action carries what comes from outside: the command typed,
the outcome of `pipe` and `fork`, the process `waitpid` finds, the value of `time`.

## Main definitions

* `World` — the dispatcher, the drivers and the pipes between them
* `World.send`, `World.receive` — the two halves of `send_command`
* `step` — the moves of the system
-/

namespace UnixLessons.Taxi

open Text Descriptors

/-- Capacity of the slot array. -/
def maxDrivers : ℕ := 100

/-- A slot of the dispatcher's array. -/
structure Driver where
  pid : Int32
  writeFd : ℕ
  readFd : ℕ
  active : Bool
deriving DecidableEq

/-- A slot of a global array that was never written to. -/
def Driver.zero : Driver := ⟨0, 0, 0, false⟩

/-- Life of a child: it can be waited for once it has died. -/
inductive Life
  | live
  | zombie
  | reaped
deriving DecidableEq

/-- A driver process. The two pipes are those it was given by `fork`. -/
structure Process where
  pid : Int32
  life : Life
  fds : Table
  mem : DriverState
  command : ℕ
  reply : ℕ

/-- What the dispatcher prints, except for prompts and help. -/
inductive Line
  | maximumReached
  | pipeFailed
  | forkFailed
  | created (pid : Int32) (slot : ℕ)
  | terminated (pid : Int32)
  | taskSent (pid timer : Int32)
  | status (pid : Int32) (text : CString)
  | text (text : CString)
  | noDrivers
  | exiting
deriving DecidableEq

/-- A parsed command line. -/
inductive Command
  | createDriver
  | sendTask (pid timer : Int32)
  | getStatus (pid : Int32)
  | getDrivers
  | exit
  | other
deriving DecidableEq

/-- A call of `send_command`, from a command of its own or from the round of
`get_drivers` that goes on at slot `next`. -/
structure Call where
  pid : Int32
  request : Request
  next : Option ℕ
deriving DecidableEq

/-- Where the dispatcher is. -/
inductive Pc
  | prompt
  | cleanup (command : Command)
  | creating
  | listing (i : ℕ)
  | sending (call : Call)
  | receiving (call : Call) (fd : ℕ)
  | ended
  /-- Killed by a write to a pipe that nobody can read. -/
  | sigpipe
deriving DecidableEq

/-- A finished call of `send_command`: the driver it was meant for, what it
returned and what was printed. -/
structure Exchange where
  pid : Int32
  request : Request
  addressee : Option ℕ
  code : ℤ
  response : CString
  line : Line
deriving DecidableEq

/-- The dispatcher with its slots and descriptors, the pipes opened so far with
their contents, all children in the order of their forks, and three histories:
the finished calls, the ends `cleanup_zombies` closed, and the output. -/
structure World where
  drivers : List Driver
  pc : Pc
  fds : Table
  pipes : ℕ
  buffer : ℕ → List Char
  procs : List Process
  exchanges : List Exchange
  closed : List (Option PipeEnd)
  out : List Line

namespace World

def init : World := ⟨[], .prompt, ∅, 0, fun _ => [], [], [], [], []⟩

/-- The dispatcher still runs. -/
def Running (s : World) : Prop := s.pc ≠ .ended ∧ s.pc ≠ .sigpipe

instance (s : World) : Decidable s.Running := inferInstanceAs (Decidable (_ ∧ _))

/-- An end of a pipe is open in some process. -/
def Held (s : World) (e : PipeEnd) : Prop :=
  (s.Running ∧ Holds s.fds e) ∨ ∃ p ∈ s.procs, p.life = .live ∧ Holds p.fds e

instance (s : World) (e : PipeEnd) : Decidable (s.Held e) :=
  inferInstanceAs (Decidable (_ ∨ _))

/-- The child with the given pid that was not waited for yet. -/
def addressee (s : World) (pid : Int32) : Option ℕ :=
  s.procs.findIdx? fun p => p.life != .reaped && p.pid == pid

/-- Replace the process `k`. -/
def setProc (s : World) (k : ℕ) (p : Process) : World := { s with procs := s.procs.set k p }

/-- Put bytes into a pipe. -/
def append (s : World) (pipe : ℕ) (bytes : List Char) : World :=
  { s with buffer := Function.update s.buffer pipe (s.buffer pipe ++ bytes) }

/-- Take the first bytes out of a pipe, as many as a message buffer holds. -/
def consume (s : World) (pipe : ℕ) : World :=
  { s with buffer := Function.update s.buffer pipe ((s.buffer pipe).drop readMax) }

/-! ### Creating drivers -/

/-- The first inactive slot, or a new one behind the others if there is room. -/
def freeSlot (drivers : List Driver) : Option (List Driver × ℕ) :=
  match drivers.findIdx? fun d => !d.active with
  | some slot => some (drivers, slot)
  | none =>
    if drivers.length ≥ maxDrivers then none else some (drivers ++ [.zero], drivers.length)

/-- A successful `pipe`; `none` when the descriptors it is said to return are in
use. -/
def pipe (s : World) (r w : ℕ) : Option World :=
  if Unused s.fds r w then
    some { s with
      fds := openPipe s.fds r w s.pipes, pipes := s.pipes + 1
      buffer := Function.update s.buffer s.pipes [] }
  else none

/-- `create_driver` gives up, with whatever it has opened. -/
def giveUp (s : World) (l : Line) : World := { s with pc := .prompt, out := s.out ++ [l] }

/-- A successful `fork`: the child has a copy of all descriptors, the dispatcher
closes the two ends it does not use and fills the slot. The pid is positive and
not that of another child that was not waited for. -/
def fork (s : World) (slot r₁ w₁ r₂ w₂ : ℕ) (pid : Int32) : Option World :=
  if 0 < pid ∧ s.addressee pid = none then
    some { s with
      drivers := s.drivers.set slot ⟨pid, w₁, r₂, true⟩, pc := .prompt
      fds := (s.fds.erase r₁).erase w₂
      procs := s.procs ++
        [⟨pid, .live, s.fds, .init r₁ w₂ w₁ r₂, s.pipes - 2, s.pipes - 1⟩]
      out := s.out ++ [.created pid slot] }
  else none

/-- How `create_driver` fares, with the descriptors of the pipes that were
created. -/
inductive Outcome
  | firstPipeFails
  | secondPipeFails (r₁ w₁ : ℕ)
  | forkFails (r₁ w₁ r₂ w₂ : ℕ)
  | forked (r₁ w₁ r₂ w₂ : ℕ) (pid : Int32)

def createDriver (s : World) (o : Outcome) : Option World :=
  match freeSlot s.drivers with
  | none => some (s.giveUp .maximumReached)
  | some (drivers, slot) =>
    let s := { s with drivers }
    match o with
    | .firstPipeFails => some (s.giveUp .pipeFailed)
    | .secondPipeFails r₁ w₁ => (s.pipe r₁ w₁).map fun s => s.giveUp .pipeFailed
    | .forkFails r₁ w₁ r₂ w₂ =>
      (s.pipe r₁ w₁).bind fun s => (s.pipe r₂ w₂).map fun s => s.giveUp .forkFailed
    | .forked r₁ w₁ r₂ w₂ pid =>
      (s.pipe r₁ w₁).bind fun s => (s.pipe r₂ w₂).bind fun s => s.fork slot r₁ w₁ r₂ w₂ pid

/-! ### Waiting for drivers -/

/-- `waitpid` returns the pid of the dead child `k`; the first slot with this pid,
active or not, is given up and its descriptors are closed. -/
def reap (s : World) (k : ℕ) : Option World :=
  match s.pc, s.procs[k]? with
  | .cleanup _, some p =>
    if p.life = .zombie then
      let s := s.setProc k { p with life := .reaped }
      match s.drivers.findIdx? fun d => d.pid == p.pid with
      | none => some s
      | some i =>
        s.drivers[i]?.map fun d =>
          { s with
            drivers := s.drivers.set i { d with active := false }
            fds := (s.fds.erase d.writeFd).erase d.readFd
            closed := s.closed ++ [s.fds.lookup d.writeFd, (s.fds.erase d.writeFd).lookup d.readFd]
            out := s.out ++ [.terminated p.pid] }
    else none
  | _, _ => none

/-- No dead child is left to wait for. -/
def Collected (s : World) : Prop := ∀ p ∈ s.procs, p.life ≠ .zombie

instance (s : World) : Decidable s.Collected := inferInstanceAs (Decidable (∀ p ∈ _, _))

/-- The command is carried out. `exit` sends every driver a signal, which may end
it at any later moment. -/
def dispatch (s : World) : Command → World
  | .createDriver => { s with pc := .creating }
  | .sendTask pid timer => { s with pc := .sending ⟨pid, .task timer, none⟩ }
  | .getStatus pid => { s with pc := .sending ⟨pid, .status, none⟩ }
  | .getDrivers =>
    if s.drivers = [] then { s with pc := .prompt, out := s.out ++ [.noDrivers] }
    else { s with pc := .listing 0 }
  | .exit => { s with pc := .ended, out := s.out ++ [.exiting] }
  | .other => { s with pc := .prompt }

/-- One round of the loop of `get_drivers`. -/
def list (s : World) (i : ℕ) : World :=
  match s.drivers[i]? with
  | none => { s with pc := .prompt }
  | some d =>
    if d.active then { s with pc := .sending ⟨d.pid, .status, some (i + 1)⟩ }
    else { s with pc := .listing (i + 1) }

/-! ### Talking to a driver -/

def notFoundText (pid : Int32) : CString :=
  snprintf bufferSize ("Driver ".toList ++ decimal pid.toInt ++ " not found".toList)

def notRespondingText (pid : Int32) : CString :=
  snprintf bufferSize ("Driver ".toList ++ decimal pid.toInt ++ " not responding".toList)

/-- What `send_task` or `get_status` prints when `send_command` returns. -/
def report (c : Call) (code : ℤ) (response : CString) : Line :=
  match c.request with
  | .task timer =>
    if code = 0 ∧ ¬ SaysBusy response then .taskSent c.pid timer else .text response
  | .status => if code = 0 then .status c.pid response else .text response

/-- `send_command` returns to its caller. -/
def finish (s : World) (c : Call) (code : ℤ) (response : CString) : World :=
  { s with
    pc := match c.next with
      | none => .prompt
      | some i => .listing i
    exchanges := s.exchanges ++
      [⟨c.pid, c.request, s.addressee c.pid, code, response, report c code response⟩]
    out := s.out ++ [report c code response] }

/-- The active slot of a driver. -/
def findDriver (s : World) (pid : Int32) : Option Driver :=
  s.drivers.find? fun d => d.pid == pid && d.active

/-- The first half of `send_command`: the driver is looked up and the command is
written. A write to a pipe without a reader kills the dispatcher, any other error
of `write` goes unnoticed. -/
def send (s : World) (c : Call) : World :=
  match s.findDriver c.pid with
  | none => s.finish c (-1) (notFoundText c.pid)
  | some d =>
    match s.fds.lookup d.writeFd with
    | some ⟨pipe, .write⟩ =>
      if s.Held ⟨pipe, .read⟩ then
        { s.append pipe (message c.request.text) with pc := .receiving c d.readFd }
      else { s with pc := .sigpipe }
    | _ => { s with pc := .receiving c d.readFd }

/-- The second half of `send_command`: one `read`, which blocks as long as the
pipe is empty and somebody can write to it. -/
def receive (s : World) (c : Call) (fd : ℕ) : Option World :=
  match s.fds.lookup fd with
  | some ⟨pipe, .read⟩ =>
    if s.buffer pipe = [] then
      if s.Held ⟨pipe, .write⟩ then none else some (s.finish c (-1) (notRespondingText c.pid))
    else some ((s.consume pipe).finish c 0 (cstr ((s.buffer pipe).take readMax)))
  | _ => some (s.finish c (-1) (notRespondingText c.pid))

/-! ### The drivers -/

/-- A live driver goes on with the rest of its loop. -/
def resume (s : World) (k : ℕ) (p : Process) (mem : DriverState) : World :=
  s.setProc k { p with mem }

/-- A driver ends. -/
def die (s : World) (k : ℕ) (p : Process) : World := s.setProc k { p with life := .zombie }

/-- `select` reports the command pipe and the driver reads from it. At the end of
the file it leaves its loop. -/
def readCommand (s : World) (k : ℕ) (p : Process) : Option World :=
  match p.fds.lookup p.mem.readFd with
  | some ⟨pipe, .read⟩ =>
    if s.buffer pipe = [] then if s.Held ⟨pipe, .write⟩ then none else some (s.die k p)
    else
      some ((s.consume pipe).resume k p
        { p.mem with pc := .handle (cstr ((s.buffer pipe).take readMax)) })
  | _ => some (s.die k p)

/-- A driver writes its answer. -/
def writeReply (s : World) (k : ℕ) (p : Process) (text : CString) : World :=
  match p.fds.lookup p.mem.writeFd with
  | some ⟨pipe, .write⟩ =>
    if s.Held ⟨pipe, .read⟩ then
      (s.append pipe (message text)).resume k p { p.mem with pc := .top }
    else s.die k p
  | _ => s.resume k p { p.mem with pc := .top }

/-- A driver makes its next move. -/
def advance (s : World) (k : ℕ) (p : Process) (now : Int64) : Option World :=
  match p.mem.pc with
  | .start commandWrite replyRead =>
    some (s.setProc k { p with
      fds := (p.fds.erase commandWrite).erase replyRead, mem := { p.mem with pc := .top } })
  | .top => some (s.resume k p (p.mem.enterSelect now))
  | .select _ => s.readCommand k p
  | .handle buffer => (p.mem.handle buffer now).map (s.resume k p)
  | .reply text => some (s.writeReply k p text)

/-- `select` returns without a command, which it does only when there is none. -/
def timeOut (s : World) (k : ℕ) (p : Process) : Option World :=
  match p.mem.pc, p.fds.lookup p.mem.readFd with
  | .select (some _), some ⟨pipe, .read⟩ =>
    if s.buffer pipe = [] ∧ s.Held ⟨pipe, .write⟩ then some (s.resume k p p.mem.timedOut) else none
  | _, _ => none

/-- The driver `k`, if it is alive. -/
def live (s : World) (k : ℕ) : Option Process := s.procs[k]?.filter (·.life == .live)

end World

/-! ### The system -/

/-- A move of the system. -/
inductive Action
  | type (command : Command)
  | endOfInput
  | reap (k : ℕ)
  | collected
  | create (o : World.Outcome)
  | list
  | send
  | receive
  | die (k : ℕ)
  | advance (k : ℕ) (now : Int64)
  | timeOut (k : ℕ)

/-- One move; `none` when it is not possible. -/
def step (s : World) : Action → Option World
  | .type command => if s.pc = .prompt then some { s with pc := .cleanup command } else none
  | .endOfInput => if s.pc = .prompt then some { s with pc := .ended } else none
  | .reap k => s.reap k
  | .collected =>
    match s.pc with
    | .cleanup command => if s.Collected then some (s.dispatch command) else none
    | _ => none
  | .create o => if s.pc = .creating then s.createDriver o else none
  | .list =>
    match s.pc with
    | .listing i => some (s.list i)
    | _ => none
  | .send =>
    match s.pc with
    | .sending c => some (s.send c)
    | _ => none
  | .receive =>
    match s.pc with
    | .receiving c fd => s.receive c fd
    | _ => none
  | .die k => (s.live k).map (s.die k)
  | .advance k now => (s.live k).bind fun p => s.advance k p now
  | .timeOut k => (s.live k).bind (s.timeOut k)

end UnixLessons.Taxi

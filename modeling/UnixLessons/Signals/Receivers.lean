import Mathlib.Data.Finset.Basic
import UnixLessons.Text.Scanf
import UnixLessons.Transition.Run

/-!
# Signals from a sender to a receiver

In each of the three tasks a receiver announces its pid and waits, and a sender, started
with the pid and perhaps the number of a signal, calls `kill`. The first receiver has a
handler for `SIGUSR1`, the second one blocks `SIGINT`, the third one blocks `SIGUSR1` and
takes it with `sigwait`.

A signal that is sent while it is pending makes no difference. To a process that is stopped
only `SIGKILL` and `SIGCONT` make one at once; all others wait until it continues, the ones
that end it among them.
-/

namespace UnixLessons.Signals

open Text

def sigint : ℕ := 2

def sigkill : ℕ := 9

def sigusr1 : ℕ := 10

def sigcont : ℕ := 18

def sigstop : ℕ := 19

/-- Whether a signal without a handler ends the process: all but the ones that stop it, let
it continue or are ignored. -/
def terminates (sig : ℕ) : Bool :=
  decide (0 < sig ∧ sig ≤ 64 ∧ sig ∉ [17, 18, 19, 20, 21, 22, 23, 28])

/-- `SIGTSTP`, `SIGTTIN` and `SIGTTOU` come from a terminal, and stop no process whose group
is orphaned. -/
def stops (orphaned : Bool) (sig : ℕ) : Bool :=
  decide (sig = sigstop ∨ (sig ∈ [20, 21, 22] ∧ orphaned = false))

/-! ### The sender -/

/-- `atoi`, which gives zero without a number. -/
def atoi (s : CString) : ℤ := (scanNumber s).1.getD 0

/-- What `sender` asks `kill` to send, and to whom, or the text of its error. -/
def sender (signum : ℤ) (argv : List CString) : Except String (ℤ × ℤ) :=
  let check (signum pid : ℤ) := if pid ≤ 0 then .error "Error pid" else .ok (signum, pid)
  match argv with
  | [_, sig, pid] => check (atoi sig) (atoi pid)
  | [_, pid] => check signum (atoi pid)
  | _ => .error "Error arg[2]"

/-- The signal that comes to the process `target`. The number 0 sends none, and numbers
that are none make `kill` fail. -/
def arriving (signum : ℤ) (argv : List CString) (target : ℤ) : Option ℕ :=
  match sender signum argv with
  | .error _ => none
  | .ok (sig, pid) => if pid = target ∧ 0 < sig ∧ sig ≤ 64 then some sig.toNat else none

/-! ### The receivers -/

/-- A receiver before the call that prepares it, before its first line, waiting, in the
handler that has interrupted it, and with a signal that `sigwait` has returned. -/
inductive Pc where
  | setup
  | announce
  | wait
  | handler (sig : ℕ) (back : Pc)
  | report (sig : ℕ)
deriving DecidableEq

/-- What `printf` shows; the handler prints its number twice. -/
inductive Line where
  | started
  | handled (sig : ℕ)
  | number (sig : ℕ)
deriving DecidableEq

/-- A process with what the kernel knows of its signals, and what it has printed. -/
structure Process where
  pc : Pc
  handled : Finset ℕ
  blocked : Finset ℕ
  pending : Finset ℕ
  stopped : Bool
  alive : Bool
  out : List Line
deriving DecidableEq

def start : Process := ⟨.setup, ∅, ∅, ∅, false, true, []⟩

namespace Process

def print (p : Process) (line : Line) : Process := { p with out := p.out ++ [line] }

def goto (p : Process) (pc : Pc) : Process := { p with pc }

/-- A signal that ends the process when it is delivered: nothing handles or blocks it. -/
def Lethal (p : Process) (sig : ℕ) : Prop :=
  terminates sig = true ∧ sig ∉ p.handled ∧ (sig ∉ p.blocked ∨ sig = sigkill)

instance (p : Process) (sig : ℕ) : Decidable (p.Lethal sig) :=
  inferInstanceAs (Decidable (_ ∧ _ ∧ _))

/-- The process continues, and what has come while it was stopped may end it. -/
def resume (p : Process) : Process :=
  if ∃ sig ∈ p.pending, p.Lethal sig then { p with stopped := false, alive := false }
  else { p with stopped := false }

/-- A signal is sent to the process. -/
def send (p : Process) (orphaned : Bool) (sig : ℕ) : Process :=
  if sig = sigcont then p.resume
  else if stops orphaned sig ∧ sig ∉ p.handled ∪ p.blocked then { p with stopped := true }
  else if p.Lethal sig ∧ (p.stopped = false ∨ sig = sigkill) then { p with alive := false }
  else if p.Lethal sig ∨ sig ∈ p.handled ∪ p.blocked then
    { p with pending := insert sig p.pending }
  else p

/-- The handler interrupts the process; its signal is blocked until it returns. -/
def deliver (p : Process) (sig : ℕ) : Option Process :=
  if p.alive = true ∧ p.stopped = false ∧ sig ∈ p.pending ∧ sig ∈ p.handled ∧ sig ∉ p.blocked then
    some { p with pc := .handler sig p.pc, pending := p.pending.erase sig,
                  blocked := insert sig p.blocked }
  else none

/-- The next statement of the handler, after which the process goes on where it was. -/
def handler (p : Process) (sig : ℕ) (back : Pc) : Process :=
  { p.print (.handled sig) with pc := back, blocked := p.blocked.erase sig }

end Process

open Process

namespace TaskOne

/-- `sigaction` installs the handler; then the process only sleeps. -/
def receiver (p : Process) : Option Process :=
  match p.pc with
  | .setup => some { p with handled := insert sigusr1 p.handled, pc := .announce }
  | .announce => some ((p.print .started).goto .wait)
  | .handler sig back => some (p.handler sig back)
  | _ => none

end TaskOne

namespace TaskTwo

/-- `sigprocmask` blocks `SIGINT`; then the process only sleeps. -/
def receiver (p : Process) : Option Process :=
  match p.pc with
  | .setup => some { p with blocked := insert sigint p.blocked, pc := .announce }
  | .announce => some ((p.print .started).goto .wait)
  | _ => none

end TaskTwo

namespace TaskThree

/-- `sigprocmask` blocks `SIGUSR1`, and `sigwait` waits for it. -/
def receiver (p : Process) : Option Process :=
  match p.pc with
  | .setup => some { p with blocked := insert sigusr1 p.blocked, pc := .announce }
  | .announce => some ((p.print .started).goto .wait)
  | .wait =>
    if sigusr1 ∈ p.pending then
      some { p with pending := p.pending.erase sigusr1, pc := .report sigusr1 }
    else none
  | .report sig => some ((p.print (.number sig)).goto .wait)
  | _ => none

end TaskThree

inductive Task where
  | one
  | two
  | three
deriving DecidableEq

namespace Task

def receiver : Task → Process → Option Process
  | one => TaskOne.receiver
  | two => TaskTwo.receiver
  | three => TaskThree.receiver

/-- The signal a sender sends by default. -/
def signum : Task → ℤ
  | one => sigusr1
  | two => sigint
  | three => sigint

/-- The signal a receiver is prepared for. -/
def expected : Task → ℕ
  | one => sigusr1
  | two => sigint
  | three => sigusr1

end Task

/-- A sender is started, while the receiver's group of processes is orphaned or not, a handler
is called, or the receiver goes on. -/
inductive Action where
  | sender (argv : List CString) (orphaned : Bool)
  | deliver (sig : ℕ)
  | receiver
deriving DecidableEq

/-- One step of the receiver `pid` of a task and of senders to it. -/
def step (task : Task) (pid : ℤ) (p : Process) : Action → Option Process
  | .sender argv orphaned =>
    match arriving task.signum argv pid with
    | some sig => some (p.send orphaned sig)
    | none => some p
  | .deliver sig => p.deliver sig
  | .receiver => if p.alive ∧ p.stopped = false then task.receiver p else none

end UnixLessons.Signals

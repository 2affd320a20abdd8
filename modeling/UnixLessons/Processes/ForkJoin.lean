import Mathlib.Data.List.Basic
import UnixLessons.Transition.Run

/-!
# Families of processes that fork and wait

A program without loops: it prints, forks, waits and exits with a code. `fork` has one
continuation for the child and one for the parent, and a parent whose `fork` failed goes on
just like one with a child. Each call of `wait` stores the code of some child that has
ended; without any child it fails and stores nothing.

Processes are told apart by their place in the order of the forks.

## Main definitions

* `Script`, `Family`, `step` — a program, all processes that run it, and their steps
* `Script.Joined` — every child is waited for
* `Script.lines` — what a process prints itself
-/

namespace UnixLessons.ForkJoin

variable {τ : Type*}

/-- What a process still has to do. -/
inductive Script (τ : Type*)
  | exit (code : ℕ)
  | print (text : τ) (rest : Script τ)
  /-- Print what the call `i` of `wait` has stored. -/
  | printStatus (i : ℕ) (rest : Script τ)
  | fork (child rest : Script τ)
  | wait (rest : Script τ)
deriving DecidableEq

namespace Script

/-- Each child is waited for before the end, if `n` of them have been forked so far. -/
def Joined : Script τ → ℕ → Prop
  | .exit _, n => n = 0
  | .print _ rest, n => rest.Joined n
  | .printStatus _ rest, n => rest.Joined n
  | .fork child rest, n => child.Joined 0 ∧ rest.Joined (n + 1)
  | .wait rest, n => rest.Joined (n - 1)

/-- Statuses are printed only behind the calls of `wait` that store them, of which `n` have
returned so far. -/
def Reads : Script τ → ℕ → Prop
  | .exit _, _ => True
  | .print _ rest, n => rest.Reads n
  | .printStatus i rest, n => i < n ∧ rest.Reads n
  | .fork child rest, n => child.Reads 0 ∧ rest.Reads n
  | .wait rest, n => rest.Reads (n + 1)

instance decidableJoined : ∀ (p : Script τ) (n : ℕ), Decidable (p.Joined n)
  | .exit _, n => inferInstanceAs (Decidable (n = 0))
  | .print _ rest, n => rest.decidableJoined n
  | .printStatus _ rest, n => rest.decidableJoined n
  | .fork child rest, n =>
    have := child.decidableJoined 0
    have := rest.decidableJoined (n + 1)
    inferInstanceAs (Decidable (_ ∧ _))
  | .wait rest, n => rest.decidableJoined (n - 1)

instance decidableReads : ∀ (p : Script τ) (n : ℕ), Decidable (p.Reads n)
  | .exit _, _ => isTrue trivial
  | .print _ rest, n => rest.decidableReads n
  | .printStatus _ rest, n =>
    have := rest.decidableReads n
    inferInstanceAs (Decidable (_ ∧ _))
  | .fork child rest, n =>
    have := child.decidableReads 0
    have := rest.decidableReads n
    inferInstanceAs (Decidable (_ ∧ _))
  | .wait rest, n => rest.decidableReads (n + 1)

/-- The exit code of the process itself. -/
def code : Script τ → ℕ
  | .exit code => code
  | .print _ rest | .printStatus _ rest | .fork _ rest | .wait rest => rest.code

/-- What the process forks children for, in this order. -/
def forks : Script τ → List (Script τ)
  | .exit _ => []
  | .fork child rest => child :: rest.forks
  | .print _ rest | .printStatus _ rest | .wait rest => rest.forks

/-- How often the process calls `wait`. -/
def waits : Script τ → ℕ
  | .exit _ => 0
  | .wait rest => rest.waits + 1
  | .print _ rest | .printStatus _ rest | .fork _ rest => rest.waits

end Script

/-- Life of a process, with its exit code once it has ended. -/
inductive Life
  | live
  | zombie (code : ℕ)
  | reaped (code : ℕ)
deriving DecidableEq

/-- A process: its parent, what it was forked for, what is left of that, and what its calls
of `wait` have stored. -/
structure Process (τ : Type*) where
  parent : Option ℕ
  program : Script τ
  script : Script τ
  statuses : List (Option ℕ)
  life : Life
deriving DecidableEq

/-- A printed line; a status that no call of `wait` has stored is `none`. -/
inductive Line (τ : Type*)
  | text (text : τ)
  | status (code : Option ℕ)
deriving DecidableEq

/-- What a process prints itself, if its calls of `wait` store these statuses. -/
def Script.lines (statuses : List (Option ℕ)) : Script τ → List (Line τ)
  | .exit _ => []
  | .print text rest => .text text :: rest.lines statuses
  | .printStatus i rest => .status statuses[i]?.join :: rest.lines statuses
  | .fork _ rest | .wait rest => rest.lines statuses

/-- A line with the process that printed it and what `getppid` returned there: nothing if
the parent was gone. -/
structure Entry (τ : Type*) where
  pid : ℕ
  ppid : Option ℕ
  line : Line τ
deriving DecidableEq

/-- All processes in the order of their forks, and the output. -/
structure Family (τ : Type*) where
  procs : List (Process τ)
  out : List (Entry τ)
deriving DecidableEq

inductive Action
  | go (k : ℕ)
  | forkFails (k : ℕ)
  | reap (k child : ℕ)
deriving DecidableEq

namespace Process

/-- A process that was just forked. -/
def init (parent : Option ℕ) (program : Script τ) : Process τ :=
  ⟨parent, program, program, [], .live⟩

/-- The process is a child of `k` that has not been waited for. -/
def IsOpen (p : Process τ) (k : ℕ) : Bool :=
  p.parent == some k && (match p.life with | .reaped _ => false | _ => true)

end Process

namespace Family

def init (program : Script τ) : Family τ := ⟨[.init none program], []⟩

/-- The number of children of a process that have not been waited for. -/
def opened (s : Family τ) (k : ℕ) : ℕ := s.procs.countP (·.IsOpen k)

/-- The parent of a process, as long as it lives. -/
def getppid (s : Family τ) (p : Process τ) : Option ℕ :=
  p.parent.filter fun k => s.procs[k]?.any (·.life == .live)

def set (s : Family τ) (k : ℕ) (p : Process τ) : Family τ := { s with procs := s.procs.set k p }

def print (s : Family τ) (k : ℕ) (p : Process τ) (line : Line τ) (script : Script τ) : Family τ :=
  { s.set k { p with script } with out := s.out ++ [⟨k, s.getppid p, line⟩] }

/-- The process `k`, if it is alive. -/
def live (s : Family τ) (k : ℕ) : Option (Process τ) := s.procs[k]?.filter (·.life == .live)

/-- A live process makes its next step; `wait` blocks as long as there is a child. -/
def advance (s : Family τ) (k : ℕ) (p : Process τ) : Option (Family τ) :=
  match p.script with
  | .exit code => some (s.set k { p with life := .zombie code })
  | .print text rest => some (s.print k p (.text text) rest)
  | .printStatus i rest => some (s.print k p (.status p.statuses[i]?.join) rest)
  | .fork child rest =>
    let s := s.set k { p with script := rest }
    some { s with procs := s.procs ++ [.init (some k) child] }
  | .wait rest =>
    if s.opened k = 0 then
      some (s.set k { p with script := rest, statuses := p.statuses ++ [none] })
    else none

/-- `fork` fails and the process goes on without a child. -/
def forkFails (s : Family τ) (k : ℕ) (p : Process τ) : Option (Family τ) :=
  match p.script with
  | .fork _ rest => some (s.set k { p with script := rest })
  | _ => none

/-- `wait` returns a child that has ended. -/
def reap (s : Family τ) (k child : ℕ) (p : Process τ) : Option (Family τ) :=
  match p.script, s.procs[child]? with
  | .wait rest, some q =>
    match q.life with
    | .zombie code =>
      if q.parent = some k then
        some ((s.set k { p with script := rest, statuses := p.statuses ++ [some code] }).set child
          { q with life := .reaped code })
      else none
    | _ => none
  | _, _ => none

end Family

/-- One step of a process; `none` when it is not possible. -/
def step (s : Family τ) : Action → Option (Family τ)
  | .go k => (s.live k).bind (s.advance k)
  | .forkFails k => (s.live k).bind (s.forkFails k)
  | .reap k child => (s.live k).bind (s.reap k child)

end UnixLessons.ForkJoin

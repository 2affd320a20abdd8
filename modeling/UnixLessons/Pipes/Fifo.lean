import Mathlib.Logic.Function.Basic
import UnixLessons.Pipes.Pipe

/-!
# A greeting through a named pipe

`server.c` makes a FIFO under a fixed name, waits in `open` until somebody opens it for
reading, writes its greeting once and ends. Any number of clients are started at any time;
each opens what it finds under the name, reads once and removes the name. A FIFO left under
the name by an earlier run may be there at the start.
-/

namespace UnixLessons.Pipes

/-- A pipe with a name. `open` waits for the other side unless it is there, so how often
either side has come is counted. -/
structure Fifo (α : Type*) where
  pipe : Pipe α
  readersCame : ℕ
  writersCame : ℕ

namespace Fifo

variable {α : Type*}

def new (α : Type*) : Fifo α := ⟨.new α 0 0, 0, 0⟩

/-- `open` with `O_RDONLY` counts the reader before it waits. -/
def comeRead (f : Fifo α) : Fifo α :=
  { f with pipe := f.pipe.openRead, readersCame := f.readersCame + 1 }

def comeWrite (f : Fifo α) : Fifo α :=
  { f with pipe := f.pipe.openWrite, writersCame := f.writersCame + 1 }

end Fifo

namespace Greeting

/-- The FIFO that was there and the one the server makes. -/
inductive Inode where
  | stale
  | fresh
deriving DecidableEq

/-- `opening f came` is `open` waiting for the other side, which had come `came` times. -/
inductive ServerPc where
  | unlink
  | mkfifo
  | waiting
  | open
  | opening (f : Inode) (came : ℕ)
  | write (f : Inode)
  | close (f : Inode)
  | farewell
  | done
  | failed (error : String)
  | killed
deriving DecidableEq

inductive ClientPc where
  | open
  | opening (f : Inode) (came : ℕ)
  | read (f : Inode)
  | print (f : Inode)
  | close (f : Inode)
  | unlink
  | done
  | failed (error : String)
deriving DecidableEq

/-- The name, the two FIFOs, and the processes with their variables and what they print. -/
structure State (N : ℕ) where
  dir : Option Inode
  fifo : Inode → Fifo Char
  server : ServerPc
  clientAt : Fin N → ClientPc
  buffer : Fin N → Option (List Char)
  out : Fin N → List Char
  serverOut : List String

/-- Who moves; `unlink` and `mkfifo` may fail. -/
inductive Action (N : ℕ) where
  | server (ok : Bool)
  | client (j : Fin N)
deriving DecidableEq

variable {N : ℕ}

/-- Before anybody has moved, with a FIFO of an earlier run under the name or without. -/
def start (N : ℕ) (leftover : Bool) : State N where
  dir := if leftover then some .stale else none
  fifo _ := .new Char
  server := .unlink
  clientAt _ := .open
  buffer _ := none
  out _ := []
  serverOut := []

def greeting : List Char := "Hi!".toList

/-- The bytes a client asks for, `sizeof(buffer) - 1`. -/
def bufferSize : ℕ := 9

/-- What a client prints. -/
def received (bytes : List Char) : List Char := "Received: ".toList ++ bytes ++ ['\n']

namespace State

def clientGoto (s : State N) (j : Fin N) (pc : ClientPc) : State N :=
  { s with clientAt := Function.update s.clientAt j pc }

def put (s : State N) (f : Inode) (x : Fifo Char) : State N :=
  { s with fifo := Function.update s.fifo f x }

def setPipe (s : State N) (f : Inode) (p : Pipe Char) : State N :=
  s.put f { s.fifo f with pipe := p }

def serverGoto (s : State N) (pc : ServerPc) : State N := { s with server := pc }

def serverPrint (s : State N) (line : String) : State N :=
  { s with serverOut := s.serverOut ++ [line] }

end State

/-- The next statement of the server; a write without a reader ends it. -/
def server (s : State N) (ok : Bool) : Option (State N) :=
  match s.server with
  | .unlink => some ({ s with dir := if ok then none else s.dir }.serverGoto .mkfifo)
  | .mkfifo =>
    some (if ok ∧ s.dir = none then { s with dir := some .fresh }.serverGoto .waiting
      else s.serverGoto (.failed "mkfifo"))
  | .waiting => some ((s.serverPrint "Server waiting for client...\n").serverGoto .open)
  | .open =>
    match s.dir with
    | none => some (s.serverGoto (.failed "open"))
    | some f =>
      some ((s.put f (s.fifo f).comeWrite).serverGoto
        (if (s.fifo f).pipe.readers ≠ 0 then .write f else .opening f (s.fifo f).readersCame))
  | .opening f came =>
    if (s.fifo f).readersCame = came then none else some (s.serverGoto (.write f))
  | .write f =>
    some (if (s.fifo f).pipe.readers = 0 then s.serverGoto .killed
      else (s.setPipe f ((s.fifo f).pipe.write greeting)).serverGoto (.close f))
  | .close f => some ((s.setPipe f (s.fifo f).pipe.closeWrite).serverGoto .farewell)
  | .farewell => some ((s.serverPrint "Server done.\n").serverGoto .done)
  | .done | .failed _ | .killed => none

/-- The next statement of a client. -/
def client (s : State N) (j : Fin N) : Option (State N) :=
  match s.clientAt j with
  | .open =>
    match s.dir with
    | none => some (s.clientGoto j (.failed "open"))
    | some f =>
      some ((s.put f (s.fifo f).comeRead).clientGoto j
        (if (s.fifo f).pipe.writers ≠ 0 then .read f else .opening f (s.fifo f).writersCame))
  | .opening f came =>
    if (s.fifo f).writersCame = came then none else some (s.clientGoto j (.read f))
  | .read f =>
    ((s.fifo f).pipe.read bufferSize).map fun (bytes, pipe) =>
      { s.setPipe f pipe with buffer := Function.update s.buffer j (some bytes) }.clientGoto
        j (.print f)
  | .print f =>
    (s.buffer j).map fun bytes =>
      { s with out := Function.update s.out j (received bytes) }.clientGoto j (.close f)
  | .close f => some ((s.setPipe f (s.fifo f).pipe.closeRead).clientGoto j .unlink)
  | .unlink => some ({ s with dir := none }.clientGoto j .done)
  | .done | .failed _ => none

def step (s : State N) : Action N → Option (State N)
  | .server ok => server s ok
  | .client j => client s j

@[simp] theorem fifo_put_self (s : State N) (f : Inode) (x : Fifo Char) :
    (s.put f x).fifo f = x :=
  Function.update_self ..

theorem fifo_put_of_ne (s : State N) {f f' : Inode} (hf : f' ≠ f) (x : Fifo Char) :
    (s.put f x).fifo f' = s.fifo f' :=
  Function.update_of_ne hf ..

end Greeting

end UnixLessons.Pipes

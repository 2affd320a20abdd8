import UnixLessons.Processes.Descriptors
import UnixLessons.Shell.Input
import UnixLessons.Transition.Run

/-!
# The processes of the pipe shell

For each command the shell forks one child, or two with a pipe between them, and waits
for them. The outcomes of `pipe` and `fork` and the moments at which children
terminate are in the actions.
-/

namespace UnixLessons.Shell

open Text Descriptors

/-- A child that has not been waited for. -/
structure Child where
  pid : ℕ
  exited : Bool
deriving DecidableEq

/-- Where the shell is: at its prompt, in `execute_simple_command`, or in
`execute_pipe_command` with what it has got so far. -/
inductive Pc where
  | prompt
  | fork
  | wait (pid : ℕ)
  | pipe
  | forkFirst (r w : ℕ)
  | forkSecond (r w pid1 : ℕ)
  | closeRead (r w pid1 pid2 : ℕ)
  | closeWrite (w pid1 pid2 : ℕ)
  | waitFirst (pid1 pid2 : ℕ)
  | waitSecond (pid2 : ℕ)
  | ended
deriving DecidableEq

/-- The shell with the commands it will read, its open pipe descriptors, the number of
pipes made so far and its children. -/
structure State where
  pc : Pc
  commands : List Dispatch
  fds : Table
  pipes : ℕ
  children : List Child

/-- The shell before its first prompt. -/
def start (commands : List Dispatch) : State := ⟨.prompt, commands, ∅, 0, []⟩

/-- The outcomes of system calls, and the children's ends. -/
inductive Action where
  | read
  | fork (pid : Option ℕ)
  | pipe (fds : Option (ℕ × ℕ))
  | close
  | reap (pid : ℕ)
  | exit (pid : ℕ)
deriving DecidableEq

namespace State

def goto (s : State) (pc : Pc) : State := { s with pc }

/-- The next command is read; without one the shell ends. -/
def read (s : State) : Option State :=
  match s.pc, s.commands with
  | .prompt, [] => some (s.goto .ended)
  | .prompt, .simpleCommand _ :: commands => some { s with commands, pc := .fork }
  | .prompt, .pipeCommand _ _ :: commands => some { s with commands, pc := .pipe }
  | _, _ => none

/-- A child is created whose pid no other child has. -/
def spawn (s : State) (pid : ℕ) (pc : Pc) : Option State :=
  if pid = 0 ∨ pid ∈ s.children.map Child.pid then none
  else some { s with children := s.children ++ [⟨pid, false⟩], pc }

/-- `fork` in the shell. A failure is reported, and the command given up. -/
def fork (s : State) (pid : Option ℕ) : Option State :=
  match s.pc, pid with
  | .fork, some pid => s.spawn pid (.wait pid)
  | .forkFirst r w, some pid => s.spawn pid (.forkSecond r w pid)
  | .forkSecond r w pid1, some pid => s.spawn pid (.closeRead r w pid1 pid)
  | .fork, none | .forkFirst _ _, none | .forkSecond _ _ _, none => some (s.goto .prompt)
  | _, _ => none

/-- `pipe` with the descriptors it returns, if any. -/
def pipe (s : State) (fds : Option (ℕ × ℕ)) : Option State :=
  match s.pc, fds with
  | .pipe, some (r, w) =>
    if Unused s.fds r w then
      some { s with fds := openPipe s.fds r w s.pipes, pipes := s.pipes + 1, pc := .forkFirst r w }
    else none
  | .pipe, none => some (s.goto .prompt)
  | _, _ => none

/-- The shell closes both ends, one after the other. -/
def close (s : State) : Option State :=
  match s.pc with
  | .closeRead r w pid1 pid2 => some { s with fds := s.fds.erase r, pc := .closeWrite w pid1 pid2 }
  | .closeWrite w pid1 pid2 => some { s with fds := s.fds.erase w, pc := .waitFirst pid1 pid2 }
  | _ => none

/-- The shell comes back from `wait` or `waitpid` with a child that has exited: `wait`
takes any child, `waitpid` the one it asks for. -/
def reap (s : State) (pid : ℕ) : Option State :=
  let reaped := { s with children := s.children.filter (·.pid ≠ pid) }
  if ⟨pid, true⟩ ∈ s.children then
    match s.pc with
    | .wait _ => some (reaped.goto .prompt)
    | .waitFirst pid1 pid2 => if pid = pid1 then some (reaped.goto (.waitSecond pid2)) else none
    | .waitSecond pid2 => if pid = pid2 then some (reaped.goto .prompt) else none
    | _ => none
  else none

/-- A child terminates, by its own doing or by a failed `execvp`. -/
def exit (s : State) (pid : ℕ) : Option State :=
  if ⟨pid, false⟩ ∈ s.children then
    some { s with children := s.children.map fun c => if c.pid = pid then ⟨pid, true⟩ else c }
  else none

end State

/-- One step of the shell or the end of a child. -/
def step (s : State) : Action → Option State
  | .read => s.read
  | .fork pid => s.fork pid
  | .pipe fds => s.pipe fds
  | .close => s.close
  | .reap pid => s.reap pid
  | .exit pid => s.exit pid

end UnixLessons.Shell

import UnixLessons.Processes.Objects
import UnixLessons.SharedMemory.Handshake
import UnixLessons.Transition.Run

/-!
# The handshake with POSIX objects

A memory object and two semaphores, each with a name of its own. The server removes the
three names, then creates the objects one after the other, and removes the names again
at its end. The client opens what the three names stand for, one after the other.
-/

namespace UnixLessons.SharedMemory.Posix

open Processes

/-- The objects for `/myshm`, `/sem_s2c` and `/sem_c2s`. -/
structure Kernel where
  shm : Objects Memory
  s2c : Objects ℕ
  c2s : Objects ℕ

/-- Nothing is left of earlier runs. -/
def Kernel.empty : Kernel := ⟨.empty, .empty, .empty⟩

/-- At the start of a run all texts are those of earlier runs. -/
def Kernel.forget (k : Kernel) : Kernel := { k with shm := k.shm.map (Option.map Entry.forget) }

/-- The three objects as memory and semaphores. -/
def Kernel.channel (k : Kernel) (shm s2c c2s : ℕ) : Option Channel :=
  match k.shm.get shm, k.s2c.get s2c, k.c2s.get c2s with
  | some memory, some s2c, some c2s => some ⟨memory, s2c, c2s⟩
  | _, _, _ => none

/-- The three objects after a step. -/
def Kernel.put (k : Kernel) (shm s2c c2s : ℕ) (ch : Channel) : Kernel where
  shm := k.shm.put shm ch.memory
  s2c := k.s2c.put s2c ch.s2c
  c2s := k.c2s.put c2s ch.c2s

inductive ServerPc where
  | unlinkShm
  | unlinkS2c
  | unlinkC2s
  | shmOpen
  | ftruncate
  | openS2c
  | openC2s
  | talk (pc : ServerAt)
  | cleanS2c
  | cleanC2s
  | ended
deriving DecidableEq

inductive ClientPc where
  | shmOpen
  | openS2c
  | openC2s
  | talk (pc : ClientAt)
  | ended
deriving DecidableEq

/-- A server with what `shm_open` and `sem_open` have returned. -/
structure Server where
  pc : ServerPc
  shm : Option ℕ
  s2c : Option ℕ
  c2s : Option ℕ
deriving DecidableEq

/-- A client with what `shm_open` and `sem_open` have returned. -/
structure Client where
  pc : ClientPc
  shm : Option ℕ
  s2c : Option ℕ
  c2s : Option ℕ
deriving DecidableEq

structure State where
  kernel : Kernel
  server : Server
  client : Client
  out : Outputs

/-- A run starts with what earlier runs have left in the kernel. -/
def start (k : Kernel) : State :=
  ⟨k.forget, ⟨.unlinkShm, none, none, none⟩, ⟨.shmOpen, none, none, none⟩, .none⟩

namespace State

/-- The server goes on. -/
def serverAt (s : State) (pc : ServerPc) : State := { s with server := { s.server with pc } }

/-- The client goes on. -/
def clientAt (s : State) (pc : ClientPc) : State := { s with client := { s.client with pc } }

/-- The server in the handshake. -/
def serverTalk (s : State) (pc : ServerAt) : Option State := do
  let shm ← s.server.shm
  let s2c ← s.server.s2c
  let c2s ← s.server.c2s
  let ch ← s.kernel.channel shm s2c c2s
  let (pc, ch, out) ← serverStep pc ch s.out
  some ({ s with kernel := s.kernel.put shm s2c c2s ch, out }.serverAt (.talk pc))

/-- The client in the handshake. -/
def clientTalk (s : State) (pc : ClientAt) : Option State := do
  let shm ← s.client.shm
  let s2c ← s.client.s2c
  let c2s ← s.client.c2s
  let ch ← s.kernel.channel shm s2c c2s
  let (pc, ch, out) ← clientStep pc ch s.out
  some ({ s with kernel := s.kernel.put shm s2c c2s ch, out }.clientAt (.talk pc))

/-- `ftruncate` gives a new memory object its size, full of zeros. -/
def ftruncate (s : State) : Option State := do
  let shm ← s.server.shm
  let memory ← s.kernel.shm.get shm
  let kernel := { s.kernel with shm := s.kernel.shm.put shm (some (memory.getD zeros)) }
  some ({ s with kernel }.serverAt .openS2c)

/-- The server's `main`. -/
def serverMove (s : State) : Option State :=
  match s.server.pc with
  | .unlinkShm => some ({ s with kernel.shm := s.kernel.shm.unlink }.serverAt .unlinkS2c)
  | .unlinkS2c => some ({ s with kernel.s2c := s.kernel.s2c.unlink }.serverAt .unlinkC2s)
  | .unlinkC2s => some ({ s with kernel.c2s := s.kernel.c2s.unlink }.serverAt .shmOpen)
  | .shmOpen =>
    let (objects, shm) := s.kernel.shm.openOrCreate none
    some { s with kernel.shm := objects, server := ⟨.ftruncate, some shm, none, none⟩ }
  | .ftruncate => s.ftruncate
  | .openS2c =>
    let (objects, s2c) := s.kernel.s2c.openOrCreate 0
    some { s with kernel.s2c := objects, server := ⟨.openC2s, s.server.shm, some s2c, none⟩ }
  | .openC2s =>
    let (objects, c2s) := s.kernel.c2s.openOrCreate 0
    some { s with
      kernel.c2s := objects
      server := ⟨.talk .write, s.server.shm, s.server.s2c, some c2s⟩ }
  | .talk .done => some ({ s with kernel.shm := s.kernel.shm.unlink }.serverAt .cleanS2c)
  | .talk pc => s.serverTalk pc
  | .cleanS2c => some ({ s with kernel.s2c := s.kernel.s2c.unlink }.serverAt .cleanC2s)
  | .cleanC2s => some ({ s with kernel.c2s := s.kernel.c2s.unlink }.serverAt .ended)
  | .ended => none

/-- The client's `main`. Whether there are semaphores is checked after both calls. -/
def clientMove (s : State) : Option State :=
  match s.client.pc with
  | .shmOpen =>
    match s.kernel.shm.name with
    | some shm => some { s with client := ⟨.openS2c, some shm, none, none⟩ }
    | none => some (s.clientAt .ended)
  | .openS2c => some { s with client := ⟨.openC2s, s.client.shm, s.kernel.s2c.name, none⟩ }
  | .openC2s =>
    match s.client.s2c, s.kernel.c2s.name with
    | some s2c, some c2s =>
      some { s with client := ⟨.talk .wait, s.client.shm, some s2c, some c2s⟩ }
    | _, _ => some (s.clientAt .ended)
  | .talk pc => s.clientTalk pc
  | .ended => none

end State

/-- One step of one of the processes. A process that is killed takes no more steps. -/
def step (s : State) : Process → Option State
  | .server => s.serverMove
  | .client => s.clientMove

/-- What earlier runs can leave behind, each of them stopped anywhere. -/
inductive LeftBehind : Kernel → Prop
  | nothing : LeftBehind .empty
  | run {k : Kernel} {acts : List Process} {s : State} (h : LeftBehind k)
      (hrun : Transition.run step (start k) acts = some s) : LeftBehind s.kernel

/-- The client does not get past its semaphore with another memory object than the one
this server has created. -/
def Fresh (s : State) : Process → Prop
  | .server => True
  | .client => s.client.pc = .talk .wait → s.client.shm = s.server.shm

instance (s : State) : ∀ p, Decidable (Fresh s p)
  | .server => inferInstanceAs (Decidable True)
  | .client => inferInstanceAs (Decidable (_ → _))

end UnixLessons.SharedMemory.Posix

import UnixLessons.Processes.Objects
import UnixLessons.SharedMemory.Handshake
import UnixLessons.Transition.Run

/-!
# The handshake with System V objects

One segment and one set of two semaphores, both found by the same key. The server opens
what exists, sets the semaphores to zero one after the other, and removes both objects
at its end. The client opens both and waits.
-/

namespace UnixLessons.SharedMemory.SystemV

open Processes

/-- The objects for the key; the set has `sem[0]`, which the server posts, and `sem[1]`. -/
structure Kernel where
  segments : Objects Entry
  sets : Objects (ℕ × ℕ)

/-- Nothing is left of earlier runs. -/
def Kernel.empty : Kernel := ⟨.empty, .empty⟩

/-- At the start of a run all texts are those of earlier runs. -/
def Kernel.forget (k : Kernel) : Kernel := { k with segments := k.segments.map Entry.forget }

/-- The segment and the set as memory and semaphores. -/
def Kernel.channel (k : Kernel) (shm sem : ℕ) : Option Channel :=
  match k.segments.get shm, k.sets.get sem with
  | some e, some v => some ⟨some e, v.1, v.2⟩
  | _, _ => none

/-- The segment and the set after a step. -/
def Kernel.put (k : Kernel) (shm sem : ℕ) (ch : Channel) : Kernel where
  segments := ch.memory.elim k.segments (k.segments.put shm)
  sets := k.sets.put sem (ch.s2c, ch.c2s)

inductive ServerPc where
  | shmget
  | semget
  | setval0
  | setval1
  | shmat
  | talk (pc : ServerAt)
  | rmSem
  | ended
deriving DecidableEq

inductive ClientPc where
  | shmget
  | semget
  | shmat
  | talk (pc : ClientAt)
  | ended
deriving DecidableEq

/-- A server with `shmid` and `semid`. -/
structure Server where
  pc : ServerPc
  shm : Option ℕ
  sem : Option ℕ
deriving DecidableEq

/-- A client with `shmid` and `semid`. -/
structure Client where
  pc : ClientPc
  shm : Option ℕ
  sem : Option ℕ
deriving DecidableEq

structure State where
  kernel : Kernel
  server : Server
  client : Client
  out : Outputs

/-- A run starts with what earlier runs have left in the kernel. -/
def start (k : Kernel) : State :=
  ⟨k.forget, ⟨.shmget, none, none⟩, ⟨.shmget, none, none⟩, .none⟩

namespace State

/-- The server goes on. -/
def serverAt (s : State) (pc : ServerPc) : State := { s with server := { s.server with pc } }

/-- The client goes on. -/
def clientAt (s : State) (pc : ClientPc) : State := { s with client := { s.client with pc } }

/-- `semctl` with `SETVAL`. On a set that was removed it fails, and the server exits. -/
def setval (s : State) (f : ℕ × ℕ → ℕ × ℕ) (pc : ServerPc) : Option State := do
  let sem ← s.server.sem
  let v ← s.kernel.sets.get sem
  if s.kernel.sets.name = some sem then
    let kernel := { s.kernel with sets := s.kernel.sets.put sem (f v) }
    some ({ s with kernel }.serverAt pc)
  else some (s.serverAt .ended)

/-- The server in the handshake. `semop` fails on a set that was removed. -/
def serverTalk (s : State) (pc : ServerAt) : Option State := do
  let shm ← s.server.shm
  let sem ← s.server.sem
  let ch ← s.kernel.channel shm sem
  if (pc = .post ∨ pc = .wait) ∧ s.kernel.sets.name ≠ some sem then some (s.serverAt .ended)
  else
    let (pc, ch, out) ← serverStep pc ch s.out
    some ({ s with kernel := s.kernel.put shm sem ch, out }.serverAt (.talk pc))

/-- The client in the handshake. -/
def clientTalk (s : State) (pc : ClientAt) : Option State := do
  let shm ← s.client.shm
  let sem ← s.client.sem
  let ch ← s.kernel.channel shm sem
  if (pc = .post ∨ pc = .wait) ∧ s.kernel.sets.name ≠ some sem then some (s.clientAt .ended)
  else
    let (pc, ch, out) ← clientStep pc ch s.out
    some ({ s with kernel := s.kernel.put shm sem ch, out }.clientAt (.talk pc))

/-- The server's `main`. A segment can be attached as long as it has the key. -/
def serverMove (s : State) : Option State :=
  match s.server.pc with
  | .shmget =>
    let (segments, shm) := s.kernel.segments.openOrCreate zeros
    some { s with kernel := { s.kernel with segments }, server := ⟨.semget, some shm, none⟩ }
  | .semget =>
    let (sets, sem) := s.kernel.sets.openOrCreate (0, 0)
    some { s with kernel := { s.kernel with sets }, server := ⟨.setval0, s.server.shm, some sem⟩ }
  | .setval0 => s.setval (fun v => (0, v.2)) .setval1
  | .setval1 => s.setval (fun v => (v.1, 0)) .shmat
  | .shmat =>
    some (s.serverAt (if s.kernel.segments.name = s.server.shm then .talk .write else .ended))
  | .talk .done =>
    some ({ s with kernel.segments := s.kernel.segments.unlink }.serverAt .rmSem)
  | .talk pc => s.serverTalk pc
  | .rmSem => some ({ s with kernel.sets := s.kernel.sets.unlink }.serverAt .ended)
  | .ended => none

/-- The client's `main`. It exits if there is no segment or no set. -/
def clientMove (s : State) : Option State :=
  match s.client.pc with
  | .shmget =>
    match s.kernel.segments.name with
    | some shm => some { s with client := ⟨.semget, some shm, none⟩ }
    | none => some (s.clientAt .ended)
  | .semget =>
    match s.kernel.sets.name with
    | some sem => some { s with client := ⟨.shmat, s.client.shm, some sem⟩ }
    | none => some (s.clientAt .ended)
  | .shmat =>
    some (s.clientAt (if s.kernel.segments.name = s.client.shm then .talk .wait else .ended))
  | .talk pc => s.clientTalk pc
  | .ended => none

end State

/-- One step of one of the processes. A process that is killed takes no more steps. -/
def step (s : State) : Process → Option State
  | .server => s.serverMove
  | .client => s.clientMove

/-- What earlier runs can leave behind, each of them stopped anywhere. -/
inductive LeftBehind : Kernel → Prop
  | nothing : LeftBehind .empty
  | run {k : Kernel} {acts : List Process} {s : State} (h : LeftBehind k)
      (hrun : Transition.run step (start k) acts = some s) : LeftBehind s.kernel

/-- The server has set `sem[0]` to zero. -/
def ServerPc.hasReset : ServerPc → Bool
  | .shmget | .semget | .setval0 => false
  | .setval1 | .shmat | .talk _ | .rmSem | .ended => true

/-- The client does not get past its semaphore before the server has reset it. -/
def Fresh (s : State) : Process → Prop
  | .server => True
  | .client => s.client.pc = .talk .wait → s.server.pc.hasReset

instance (s : State) : ∀ p, Decidable (Fresh s p)
  | .server => inferInstanceAs (Decidable True)
  | .client => inferInstanceAs (Decidable (_ → _))

end UnixLessons.SharedMemory.SystemV

import UnixLessons.SharedMemory.NewNames
import UnixLessons.SharedMemory.Reset

/-!
# The handshake after a crash

Both servers try to get rid of what earlier runs have left, System V by resetting the
semaphores and POSIX by removing the names. But nothing keeps a client from coming
first. It may take a unit that an earlier server has posted, or open the memory of an
earlier run and the semaphores of this one.

## Main results

* `handshake_of_fresh`: unless the client does so, the handshake is as it should be,
  whatever earlier runs have left behind; if it does so, it reads an old text next
* `not_handshake_leftover`: after a server that was killed while it waited, both
  handshakes can go wrong
-/

namespace UnixLessons.SharedMemory

open Transition

/-- The two implementations of the handshake. -/
inductive Implementation where
  | systemV
  | posix

namespace Implementation

def Kernel : Implementation → Type
  | systemV => SystemV.Kernel
  | posix => Posix.Kernel

def State : Implementation → Type
  | systemV => SystemV.State
  | posix => Posix.State

def start : (i : Implementation) → i.Kernel → i.State
  | systemV => SystemV.start
  | posix => Posix.start

def step : (i : Implementation) → i.State → Process → Option i.State
  | systemV => SystemV.step
  | posix => Posix.step

def out : (i : Implementation) → i.State → Outputs
  | systemV => SystemV.State.out
  | posix => Posix.State.out

/-- With System V objects the client must not get past its semaphore before the server
has reset it, and with POSIX objects not with other memory than the server's. -/
def Fresh : (i : Implementation) → i.State → Process → Prop
  | systemV => SystemV.Fresh
  | posix => Posix.Fresh

/-- The client was killed by `SIGBUS`. -/
def Killed : (i : Implementation) → i.State → Prop
  | systemV, s => s.client.pc = .talk .killed
  | posix, s => s.client.pc = .talk .killed

end Implementation

/-- In a run in which the client does not use what an earlier run has left, both
processes print what they should. If it does, its next step prints an old text as read,
or kills it if there is no text. -/
theorem handshake_of_fresh (i : Implementation) (k : i.Kernel) (acts : List Process)
    (s : i.State) (hrun : run i.step (i.start k) acts = some s)
    (hfresh : Along i.step i.Fresh (i.start k) acts) :
    Handshake (i.out s) ∧
      ∀ p t, ¬ i.Fresh s p → i.step s p = some t →
        ∃ u, i.step t .client = some u ∧ (i.Killed u ∨ ¬ Handshake (i.out u)) := by
  cases i with
  | systemV =>
    have hinv : SystemV.Inv s := SystemV.inv_of_fresh hrun hfresh
    refine ⟨hinv.handshake, ?_⟩
    intro p t hnot hstep
    obtain ⟨u, hnext, hwrong⟩ := hinv.not_handshake hnot hstep
    exact ⟨u, hnext, .inr hwrong⟩
  | posix =>
    have hinv : Posix.Inv s := Posix.inv_of_fresh hrun hfresh
    refine ⟨hinv.handshake, ?_⟩
    intro p t hnot hstep
    exact hinv.not_handshake hnot hstep

/-- A server was killed while it waited, and then a server and a client run one after
the other, as far as they have to. -/
theorem handshake_of_fresh_afterCrash :
    (∃ k acts s, SystemV.LeftBehind k ∧ run SystemV.step (SystemV.start k) acts = some s ∧
      s.out = ⟨some message, some reply⟩ ∧ Handshake s.out) ∧
    (∃ k acts s, Posix.LeftBehind k ∧ run Posix.step (Posix.start k) acts = some s ∧
      s.out = ⟨some message, some reply⟩ ∧ Handshake s.out) := by
  constructor
  · let before : List Process := List.replicate 8 .server
    let acts : List Process :=
      List.replicate 8 .server ++ List.replicate 8 .client ++ List.replicate 2 .server
    have hend : ((run SystemV.step (SystemV.start .empty) before).bind fun s₀ =>
        run SystemV.step (SystemV.start s₀.kernel) acts).map (fun s => s.out) =
        some ⟨some message, some reply⟩ := by decide
    have hfresh : (run SystemV.step (SystemV.start .empty) before).map (fun s₀ =>
        decide (Along SystemV.step SystemV.Fresh (SystemV.start s₀.kernel) acts)) =
        some true := by decide
    obtain ⟨s₀, s, hbefore, hrun, hout⟩ := exists_of_run_run hend
    rw [hbefore, Option.map_some, Option.some.injEq, decide_eq_true_eq] at hfresh
    exact ⟨s₀.kernel, acts, s, .run .nothing hbefore, hrun, hout,
      (handshake_of_fresh .systemV s₀.kernel acts s hrun hfresh).1⟩
  · let before : List Process := List.replicate 10 .server
    let acts : List Process :=
      List.replicate 10 .server ++ List.replicate 8 .client ++ List.replicate 2 .server
    have hend : ((run Posix.step (Posix.start .empty) before).bind fun s₀ =>
        run Posix.step (Posix.start s₀.kernel) acts).map (fun s => s.out) =
        some ⟨some message, some reply⟩ := by decide
    have hfresh : (run Posix.step (Posix.start .empty) before).map (fun s₀ =>
        decide (Along Posix.step Posix.Fresh (Posix.start s₀.kernel) acts)) =
        some true := by decide
    obtain ⟨s₀, s, hbefore, hrun, hout⟩ := exists_of_run_run hend
    rw [hbefore, Option.map_some, Option.some.injEq, decide_eq_true_eq] at hfresh
    exact ⟨s₀.kernel, acts, s, .run .nothing hbefore, hrun, hout,
      (handshake_of_fresh .posix s₀.kernel acts s hrun hfresh).1⟩

/-- A server was killed while it waited, and the next client comes before the next
server, or between the removal of the old names and the new objects. It reads the `Hi!`
of the earlier server, and this server receives its own. -/
theorem not_handshake_leftover :
    (∃ k acts s, SystemV.LeftBehind k ∧ run SystemV.step (SystemV.start k) acts = some s ∧
      s.out = ⟨some message.forget, some message⟩ ∧ ¬ Handshake s.out) ∧
    (∃ k acts s, Posix.LeftBehind k ∧ run Posix.step (Posix.start k) acts = some s ∧
      s.out = ⟨some message.forget, some message⟩ ∧ ¬ Handshake s.out) := by
  have hwrong : ¬ Handshake ⟨some message.forget, some message⟩ := by decide
  constructor
  · let before : List Process := List.replicate 8 .server
    let acts : List Process :=
      List.replicate 7 .client ++ List.replicate 8 .server ++ [.client, .server, .server]
    have hend : ((run SystemV.step (SystemV.start .empty) before).bind fun s₀ =>
        run SystemV.step (SystemV.start s₀.kernel) acts).map (fun s => s.out) =
        some ⟨some message.forget, some message⟩ := by decide
    obtain ⟨s₀, s, hbefore, hrun, hout⟩ := exists_of_run_run hend
    exact ⟨s₀.kernel, acts, s, .run .nothing hbefore, hrun, hout, hout ▸ hwrong⟩
  · let before : List Process := List.replicate 10 .server
    let acts : List Process := [.client] ++ List.replicate 7 .server ++ List.replicate 2 .client ++
      List.replicate 3 .server ++ List.replicate 5 .client ++ List.replicate 2 .server
    have hend : ((run Posix.step (Posix.start .empty) before).bind fun s₀ =>
        run Posix.step (Posix.start s₀.kernel) acts).map (fun s => s.out) =
        some ⟨some message.forget, some message⟩ := by decide
    obtain ⟨s₀, s, hbefore, hrun, hout⟩ := exists_of_run_run hend
    exact ⟨s₀.kernel, acts, s, .run .nothing hbefore, hrun, hout, hout ▸ hwrong⟩

end UnixLessons.SharedMemory

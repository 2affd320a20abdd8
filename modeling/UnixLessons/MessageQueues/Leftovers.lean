import UnixLessons.MessageQueues.Posix
import UnixLessons.MessageQueues.SystemV

/-!
# Queues after a crash

A server that reaches its end removes the queues, and a killed one leaves them with what is in
them. The next server opens them as they are. It may accept the reply to an earlier server, and
its client may reply to an old greeting.

## Main results

* `safe_of_drained`: with no message left every run is safe, whatever queues there are; with a
  message left, and room for those of this run, some run is not
* `not_safe_leftover`: an old reply and an old greeting in both implementations
-/

namespace UnixLessons.MessageQueues

open Transition
open SharedMemory (Process)

/-- The two implementations of the handshake. The size of a System V queue is set by the
system. -/
inductive Implementation where
  | systemV (qbytes : ℕ)
  | posix

namespace Implementation

def State : Implementation → Type
  | systemV _ => SystemV.State
  | posix => Posix.State

/-- What is in the queues between two runs. -/
def Left : Implementation → Type
  | systemV _ => Option SystemV.Queue
  | posix => Posix.Left

def start : (i : Implementation) → i.Left → i.State
  | systemV _ => SystemV.start
  | posix => Posix.start

def step : (i : Implementation) → i.State → Process → Option i.State
  | systemV qbytes => SystemV.step qbytes
  | posix => Posix.step

def events : (i : Implementation) → i.State → Events
  | systemV _ => SystemV.State.events
  | posix => Posix.State.events

/-- There is no queue. -/
def nothing : (i : Implementation) → i.Left
  | systemV _ => (none : Option SystemV.Queue)
  | posix => (⟨none, none⟩ : Posix.Left)

/-- What stays when both processes have ended or were killed. -/
def left : (i : Implementation) → i.State → i.Left
  | systemV _, s => s.queues.left
  | posix, s => ⟨s.fromServer.left, s.fromClient.left⟩

def Drained : (i : Implementation) → i.Left → Prop
  | systemV _ => SystemV.Drained
  | posix => Posix.Drained

/-- There is room for the messages of this run. A POSIX queue gets it when one is taken. -/
def Room : (i : Implementation) → i.Left → Prop
  | systemV qbytes => SystemV.Room qbytes
  | posix => Posix.Bounded

/-- What earlier runs can leave behind, each of them stopped anywhere. -/
inductive LeftBehind (i : Implementation) : i.Left → Prop
  | nothing : LeftBehind i i.nothing
  | run {l : i.Left} {acts : List Process} {s : i.State} (h : LeftBehind i l)
      (hrun : Transition.run i.step (i.start l) acts = some s) : LeftBehind i (i.left s)

end Implementation

/-- **The handshake after a crash.** Queues that hold no message make no run unsafe. If they
hold one, and there is room for those of this run, some run is unsafe. -/
theorem safe_of_drained (i : Implementation) (l : i.Left) :
    (i.Drained l → ∀ acts s, run i.step (i.start l) acts = some s → Safe (i.events s)) ∧
      (i.Room l → ¬ i.Drained l →
        ∃ acts s, run i.step (i.start l) acts = some s ∧ ¬ Safe (i.events s)) := by
  cases i with
  | systemV qbytes =>
    refine ⟨fun hdrained acts s hrun => ?_, fun hroom hleft => ?_⟩
    · exact (SystemV.Inv.run hdrained hrun).safe
    · exact SystemV.not_safe_of_message hleft hroom
  | posix =>
    refine ⟨fun hdrained acts s hrun => ?_, fun hroom hleft => ?_⟩
    · exact (Posix.Inv.run hdrained hrun).safe
    · exact Posix.not_safe_of_letter hleft hroom

/-- A server was killed before it had sent anything, and has left its queues empty. -/
theorem safe_of_drained_killed :
    (∃ killed acts s, run (SystemV.step 16384) (SystemV.start none) [.server] = some killed ∧
      run (SystemV.step 16384) (SystemV.start killed.queues.left) acts = some s ∧
      s.events = ⟨some greeting, some reply, true⟩ ∧ Safe s.events) ∧
    (∃ killed acts s, run Posix.step (Posix.start ⟨none, none⟩) [.server, .server] = some killed ∧
      run Posix.step (Posix.start ⟨killed.fromServer.left, killed.fromClient.left⟩) acts = some s ∧
      s.events = ⟨some greeting, some reply, true⟩ ∧ Safe s.events) := by
  constructor
  · let acts : List Process := [.server, .server, .client, .client, .client, .server, .server]
    obtain ⟨s, hrun, hevents⟩ := Option.map_eq_some_iff.mp (by decide :
      (run (SystemV.step 16384) (SystemV.start (some [])) acts).map SystemV.State.events =
        some ⟨some greeting, some reply, true⟩)
    have hdrained : SystemV.Drained (some []) := by simp [SystemV.Drained]
    exact ⟨_, acts, s, rfl, hrun, hevents,
      (safe_of_drained (.systemV 16384) (some [])).1 hdrained acts s hrun⟩
  · let acts : List Process := [.server, .server, .server, .client, .client, .client, .client,
      .server, .server, .server]
    obtain ⟨s, hrun, hevents⟩ := Option.map_eq_some_iff.mp (by decide :
      (run Posix.step (Posix.start ⟨some [], some []⟩) acts).map Posix.State.events =
        some ⟨some greeting, some reply, true⟩)
    have hdrained : Posix.Drained ⟨some [], some []⟩ := by simp [Posix.Drained]
    exact ⟨_, acts, s, rfl, hrun, hevents,
      (safe_of_drained .posix ⟨some [], some []⟩).1 hdrained acts s hrun⟩

/-- After runs that were stopped somewhere, a run comes to these events, which are not safe. -/
def Implementation.GoesWrong (i : Implementation) (e : Events) : Prop :=
  ¬ Safe e ∧ ∃ l acts s, i.LeftBehind l ∧ run i.step (i.start l) acts = some s ∧ i.events s = e

/-- One run before is enough. -/
theorem goesWrong_of_runs {i : Implementation} {e : Events} (before acts : List Process)
    (hnot : ¬ Safe e)
    (h : ((run i.step (i.start i.nothing) before).bind fun s =>
      run i.step (i.start (i.left s)) acts).map i.events = some e) : i.GoesWrong e := by
  obtain ⟨s₀, s, hbefore, hrun, hevents⟩ := exists_of_run_run h
  exact ⟨hnot, i.left s₀, acts, s, .run .nothing hbefore, hrun, hevents⟩

/-- A server was killed while it waited. If its client has replied, the next server accepts this
reply before anyone has taken its greeting. If there was no client, the next one takes the old
greeting and this server accepts its reply. -/
theorem not_safe_leftover :
    (Implementation.GoesWrong (.systemV 16384) ⟨none, some reply.forget, true⟩ ∧
      Implementation.GoesWrong (.systemV 16384) ⟨some greeting.forget, some reply, true⟩) ∧
    (Implementation.GoesWrong .posix ⟨none, some reply.forget, true⟩ ∧
      Implementation.GoesWrong .posix ⟨some greeting.forget, some reply, true⟩) := by
  have hreply : ¬ Safe ⟨none, some reply.forget, true⟩ := Safe.not_of_other rfl rfl (.inl rfl)
  have hgreeting : ¬ Safe ⟨some greeting.forget, some reply, true⟩ :=
    Safe.not_of_other rfl rfl (.inr rfl)
  refine ⟨⟨?_, ?_⟩, ?_, ?_⟩
  -- The second server neither needs a client nor waits for one.
  · exact goesWrong_of_runs [.server, .server, .client, .client, .client]
      [.server, .server, .server, .server] hreply (by decide)
  · exact goesWrong_of_runs [.server, .server]
      [.server, .client, .client, .server, .client, .server, .server] hgreeting (by decide)
  · exact goesWrong_of_runs [.server, .server, .server, .client, .client, .client, .client]
      [.server, .server, .server, .server, .server, .server] hreply (by decide)
  · exact goesWrong_of_runs [.server, .server, .server]
      [.server, .server, .client, .client, .client, .server, .client, .server, .server, .server]
      hgreeting (by decide)

end UnixLessons.MessageQueues

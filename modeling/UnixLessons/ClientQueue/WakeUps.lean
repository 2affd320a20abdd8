import Mathlib.Algebra.BigOperators.Fin
import Mathlib.Algebra.Order.BigOperators.Group.Finset
import Mathlib.Algebra.Order.Ring.Int
import UnixLessons.ClientQueue.Ownership

/-!
# No wake-up is lost

A signal that nobody waits for is dropped, a woken thread may find that its client
was taken by a thread that never slept, and threads wake up without a signal. All
the same no client is left waiting next to a sleeping thread: as long as some
thread sleeps, every client in the queue is matched by a thread that is on its way
to take one, or by a signal that is about to be sent.

Each place in the code has a weight, one for the places from which a thread will
take a client, so that the matching is an inequality between the counter and the
sum of the weights.

## Main results

* `Matched.preserved`: every statement of every thread keeps the inequality
* `no_lost_wakeup`: what it says when the mutex of the queue is free
-/

namespace UnixLessons.ClientQueue

open Text Threads Transition

variable {n : ℕ} {s t : Server n} {i : Fin n}

/-! ### The weights -/

/-- The thread is on its way to take a client: it has still to take the mutex of
the queue, or it has it and has not counted its client yet. -/
def ThreadPc.coming : ThreadPc → ℤ
  | .lock | .test | .copyFd | .copyAddr _ | .copyMessage _ _ | .advance _
  | .holding _ _ .decrement => 1
  | _ => 0

/-- The main thread has counted a client and not sent the signal yet. -/
def MainPc.announcing : MainPc → ℤ
  | .signal => 1
  | _ => 0

theorem ThreadPc.coming_nonneg (pc : ThreadPc) : 0 ≤ pc.coming := by
  unfold ThreadPc.coming
  split <;> decide

theorem MainPc.announcing_nonneg (pc : MainPc) : 0 ≤ pc.announcing := by
  unfold MainPc.announcing
  split <;> decide

/-- The threads and signals that clients in the queue can count on. -/
def Server.promised (s : Server n) : ℤ :=
  ∑ i, (s.threadAt i).coming + s.mainAt.announcing

theorem Server.promised_nonneg (s : Server n) : 0 ≤ s.promised :=
  add_nonneg (Finset.sum_nonneg fun i _ => (s.threadAt i).coming_nonneg)
    s.mainAt.announcing_nonneg

theorem sum_coming_update (threadAt : Fin n → ThreadPc) (i : Fin n) (pc : ThreadPc) :
    ∑ j, (Function.update threadAt i pc j).coming =
      ∑ j, (threadAt j).coming + (pc.coming - (threadAt i).coming) := by
  have hupdate : ∀ j, (Function.update threadAt i pc j).coming =
      (threadAt j).coming + if j = i then pc.coming - (threadAt i).coming else 0 := by
    intro j
    by_cases hj : j = i
    · subst hj
      simp
    · simp [hj]
  rw [Finset.sum_congr rfl fun j _ => hupdate j, Finset.sum_add_distrib, Finset.sum_ite_eq',
    if_pos (Finset.mem_univ i)]

/-- While a thread sleeps, every client in the queue is matched. -/
def Matched (s : Server n) : Prop :=
  (∃ i, s.threadAt i = .asleep) → s.queueCount ≤ s.promised

namespace Matched

theorem initServers : Matched (initServers n) := by
  rintro ⟨i, hi⟩
  cases hi

/-- A thread moves, and whatever it takes from the promised it takes from the
counter. -/
theorem threadMoves (h : Matched s) (pc : ThreadPc) {old : ThreadPc} (hat : s.threadAt i = old)
    (hthread : t.threadAt = Function.update s.threadAt i pc) (hmain : t.mainAt = s.mainAt)
    (hcount : t.queueCount - s.queueCount ≤ pc.coming - old.coming) (hpc : pc ≠ .asleep) :
    Matched t := by
  rintro ⟨j, hj⟩
  rw [hthread] at hj
  -- The thread that sleeps now is another one, so it slept before.
  have hji : j ≠ i := by
    rintro rfl
    rw [Function.update_self] at hj
    exact hpc hj
  rw [Function.update_of_ne hji] at hj
  have hbefore := h ⟨j, hj⟩
  have hsum := sum_coming_update s.threadAt i pc
  rw [hat] at hsum
  rw [Server.promised] at hbefore ⊢
  rw [hthread, hmain, hsum]
  omega

/-- A thread falls asleep over an empty queue. -/
theorem fallsAsleep (hempty : t.queueCount = 0) : Matched t :=
  fun _ => hempty ▸ t.promised_nonneg

/-- The main thread moves, and it announces what it counts. -/
theorem mainMoves (h : Matched s) (hthread : t.threadAt = s.threadAt)
    (hcount : t.queueCount - s.queueCount ≤ t.mainAt.announcing - s.mainAt.announcing) :
    Matched t := by
  rintro ⟨j, hj⟩
  rw [hthread] at hj
  have hbefore := h ⟨j, hj⟩
  rw [Server.promised] at hbefore ⊢
  rw [hthread]
  omega

/-- A signal that finds a sleeper puts a thread in its own place. -/
theorem signal (h : Matched s) {woken : List (Fin n)} (hat : s.mainAt = .signal)
    (hasleep : ∀ i ∈ woken, s.threadAt i = .asleep)
    (hsome : woken = [] → ∀ i, s.threadAt i ≠ .asleep) :
    Matched { s with
      mainAt := .unlock
      threadAt := fun i => if i ∈ woken then .lock else s.threadAt i } := by
  rintro ⟨j, hj⟩
  have hj' : s.threadAt j = .asleep := by
    dsimp only at hj
    split at hj
    · cases hj
    · exact hj
  -- Somebody sleeps, so the signal has woken somebody.
  have hwoken : woken ≠ [] := fun hnil => hsome hnil j hj'
  have hge : ∀ i, (s.threadAt i).coming ≤
      (if i ∈ woken then ThreadPc.lock else s.threadAt i).coming := by
    intro i
    split
    · rename_i hi
      rw [hasleep i hi]
      decide
    · exact le_rfl
  have hlt : ∑ i, (s.threadAt i).coming <
      ∑ i, (if i ∈ woken then ThreadPc.lock else s.threadAt i).coming := by
    apply Finset.sum_lt_sum fun i _ => hge i
    obtain ⟨i, hi⟩ := List.exists_mem_of_ne_nil woken hwoken
    refine ⟨i, Finset.mem_univ i, ?_⟩
    rw [if_pos hi, hasleep i hi]
    decide
  have hbefore := h ⟨j, hj'⟩
  rw [Server.promised, hat] at hbefore
  simp only [Server.promised, MainPc.announcing] at hbefore ⊢
  omega

/-! ### Every statement of every thread -/

/-- What is sent moves no thread and counts nobody. -/
private theorem send_keeps (s : Server n) (fd : ℕ) (text : CString) :
    (s.send fd text).threadAt = s.threadAt ∧ (s.send fd text).mainAt = s.mainAt ∧
      (s.send fd text).queueCount = s.queueCount := by
  unfold Server.send
  split
  · split <;> exact ⟨rfl, rfl, rfl⟩
  · exact ⟨rfl, rfl, rfl⟩

private theorem close_keeps (s : Server n) (fd : ℕ) :
    (s.close fd).threadAt = s.threadAt ∧ (s.close fd).mainAt = s.mainAt ∧
      (s.close fd).queueCount = s.queueCount := by
  unfold Server.close
  split <;> exact ⟨rfl, rfl, rfl⟩

private theorem enqueueClient (h : Matched s) {k : ℕ} {it : Item} {pc : EnqueuePc}
    (hat : s.mainAt = .enqueue k it pc) (hstep : enqueueClient s k it pc = some t) :
    Matched t := by
  -- until the increment the queue has the old count, and no thread is touched
  have hmove : t.threadAt = s.threadAt ∧ t.queueCount = s.queueCount := by
    cases pc with
    | lock =>
      simp only [ClientQueue.enqueueClient] at hstep
      split at hstep
      · cases hstep
        exact ⟨rfl, rfl⟩
      · cases hstep
    | sendFull =>
      cases hstep
      obtain ⟨hthread, -, hcount⟩ := send_keeps s it.clientFd errorQueueFull
      exact ⟨hthread, hcount⟩
    | closeFull =>
      cases hstep
      obtain ⟨hthread, -, hcount⟩ := close_keeps s it.clientFd
      exact ⟨hthread, hcount⟩
    | _ =>
      cases hstep
      exact ⟨rfl, rfl⟩
  refine h.mainMoves hmove.1 ?_
  rw [hmove.2, hat]
  have hnonneg := t.mainAt.announcing_nonneg
  simpa [MainPc.announcing] using hnonneg

private theorem mainStep (h : Matched s) (hstep : mainStep s = some t) : Matched t := by
  unfold ClientQueue.mainStep at hstep
  split at hstep
  · exact h.enqueueClient ‹_› hstep
  · rename_i hat
    cases hstep
    -- The client is counted and announced in one step.
    exact h.mainMoves rfl (by simp [hat, MainPc.announcing])
  · rename_i hat
    cases hstep
    exact h.mainMoves rfl (by simp [Server.mainGoto, Server.unlock, hat, MainPc.announcing])
  · cases hstep
  · cases hstep
  · cases hstep

private theorem hold (h : Matched s) {k : ℕ} {it : Item} {pc : HoldPc} {now : CString}
    (hat : s.threadAt i = .holding k it pc) (hstep : hold s i now k it pc = some t) :
    Matched t := by
  cases pc with
  | decrement =>
    cases hstep
    -- The thread is no longer coming, and its client is no longer counted.
    exact h.threadMoves _ hat rfl rfl (by simp [ThreadPc.coming]) (by simp)
  | unlock =>
    cases hstep
    exact h.threadMoves _ hat rfl rfl (by simp [Server.threadGoto, Server.unlock, ThreadPc.coming])
      (by simp)
  | compare =>
    cases hstep
    refine h.threadMoves _ hat rfl rfl ?_ (by simp)
    split <;> simp [Server.threadGoto, ThreadPc.coming]
  | ctime =>
    cases hstep
    exact h.threadMoves (.holding k it .sendTime) hat rfl rfl
      (by simp [Server.threadGoto, Server.setConn, ThreadPc.coming]) (by simp)
  | sendTime | sendError =>
    cases hstep
    obtain ⟨hthread, hmain, hcount⟩ := send_keeps s it.clientFd _
    exact h.threadMoves (.holding k it .close) hat (congrArg (Function.update · i _) hthread) hmain
      (by simp [Server.threadGoto, hcount, ThreadPc.coming]) (by simp)
  | close =>
    cases hstep
    obtain ⟨hthread, hmain, hcount⟩ := close_keeps s it.clientFd
    exact h.threadMoves .releaseLock hat (congrArg (Function.update · i _) hthread) hmain
      (by simp [Server.threadGoto, hcount, ThreadPc.coming]) (by simp)

private theorem serviceServerThread (h : Matched s) {now : CString}
    (hstep : serviceServerThread s i now = some t) : Matched t := by
  unfold ClientQueue.serviceServerThread at hstep
  cases hat : s.threadAt i with
  | serverLock | lock | releaseLock =>
    simp only [hat] at hstep
    split at hstep
    · cases hstep
      exact h.threadMoves _ hat rfl rfl (by simp [Server.threadGoto, Server.lock, ThreadPc.coming])
        (by simp)
    · cases hstep
  | serverTest =>
    simp only [hat] at hstep
    split at hstep <;> cases hstep <;>
      exact h.threadMoves _ hat rfl rfl
        (by simp [Server.threadGoto, Server.unlock, ThreadPc.coming]) (by simp)
  | test =>
    simp only [hat] at hstep
    split at hstep
    · rename_i hempty
      cases hstep
      exact fallsAsleep hempty
    · cases hstep
      exact h.threadMoves _ hat rfl rfl (by simp [Server.threadGoto, ThreadPc.coming]) (by simp)
  -- a thread that sleeps does not move by itself
  | asleep | serverAsleep => simp [hat] at hstep
  | holding k it pc =>
    simp only [hat] at hstep
    exact h.hold hat hstep
  | _ =>
    simp only [hat, Option.some_inj] at hstep
    cases hstep
    exact h.threadMoves _ hat rfl rfl
      (by simp [Server.threadGoto, Server.setBusy, Server.unlock, ThreadPc.coming]) (by simp)

/-- Every statement of every thread keeps the clients matched. -/
theorem preserved : Preserved step (Matched : Server n → Prop) := by
  intro s a t h hstep
  obtain ⟨-, hstep⟩ := act_of_step hstep
  cases a with
  | accept fd addr =>
    simp only [act, acceptClient] at hstep
    split at hstep
    · rename_i hcond
      cases hstep
      exact h.mainMoves rfl (by simp [hcond.1, Server.setConn, MainPc.announcing])
    · cases hstep
  | read bytes =>
    simp only [act, readMessage] at hstep
    split at hstep
    · rename_i hat
      cases hstep
      exact h.mainMoves rfl
        (by simp [Server.mainGoto, Server.setConn, hat, MainPc.announcing])
    · cases hstep
  | main => exact h.mainStep hstep
  | signal woken =>
    simp only [act, ClientQueue.signal] at hstep
    split at hstep
    · rename_i hcond
      cases hstep
      exact h.signal hcond.1 hcond.2.1 hcond.2.2
    · cases hstep
  | service i now => exact h.serviceServerThread hstep
  | wakeUp i =>
    simp only [act, wakeUp] at hstep
    split at hstep
    · rename_i hat
      cases hstep
      -- A thread that wakes up by itself is coming as well.
      exact h.threadMoves _ hat rfl rfl (by simp [Server.threadGoto, ThreadPc.coming]) (by simp)
    · rename_i hat
      cases hstep
      exact h.threadMoves _ hat rfl rfl (by simp [Server.threadGoto, ThreadPc.coming]) (by simp)
    · cases hstep
  | reset k broken =>
    simp only [act, reset] at hstep
    split at hstep
    · cases hstep
      exact h.mainMoves rfl (by simp [Server.setConn])
    · cases hstep

end Matched

/-! ### The main result -/

/-- A thread is in the critical section of the queue, or its weight is that of a
thread that waits for the mutex. -/
theorem ThreadPc.coming_of_outside {pc : ThreadPc} (hout : pc.place i ≠ some .queue) :
    pc.coming = if pc = .lock then 1 else 0 := by
  unfold ThreadPc.coming
  split <;> simp_all [ThreadPc.place]

theorem MainPc.announcing_of_outside {pc : MainPc}
    (hout : pc.place ≠ some (Mutex.queue : Mutex n)) : pc.announcing = 0 := by
  unfold MainPc.announcing
  split
  · exact absurd rfl hout
  · rfl

/-- **No wake-up is lost.** Whatever the interleaving, when the mutex of the queue
is free and some thread sleeps without having been woken, there are at most as
many clients in the queue as threads about to take the mutex, woken or on their
way from their last client. -/
theorem no_lost_wakeup (hs : Reachable step (· = initServers n) s)
    (hfree : s.mutex .queue = none) (hasleep : s.threadAt i = .asleep) :
    s.queueCount ≤ (Finset.univ.filter fun j => s.threadAt j = .lock).card := by
  obtain ⟨owner, hsound⟩ := Sound.reachable hs
  have hmatched : Matched s :=
    Matched.preserved.reachable (by rintro _ rfl; exact Matched.initServers) hs
  -- Nobody is in the critical section, so no weight is left there.
  have hmain : s.mainAt.place ≠ some (Mutex.queue : Mutex n) :=
    hsound.guards.outside (t := Thread.main) hfree
  have hthread : ∀ j, (s.threadAt j).place j ≠ some Mutex.queue := fun j =>
    hsound.guards.outside (t := Thread.service j) hfree
  -- what is promised is what waits for the mutex, and that can be counted
  calc s.queueCount ≤ s.promised := hmatched ⟨i, hasleep⟩
    _ = ∑ j, if s.threadAt j = .lock then 1 else 0 := by
      rw [Server.promised, MainPc.announcing_of_outside hmain, add_zero]
      exact Finset.sum_congr rfl fun j _ => ThreadPc.coming_of_outside (hthread j)
    _ = (Finset.univ.filter fun j => s.threadAt j = .lock).card := by
      rw [Finset.sum_boole]

/-- Two threads fall asleep, a client is queued, and the signal wakes the second. -/
def oneWoken : List (Action 2) :=
  List.replicate 6 (.service 0 []) ++ List.replicate 6 (.service 1 []) ++
    [.accept 4 (2130706433, 5000), .read "TIME\n".toList] ++ List.replicate 7 .main ++
      [.signal [1], .main]

theorem no_lost_wakeup_oneWoken :
    ∃ s, run step (initServers 2) oneWoken = some s ∧ s.queueCount = 1 ∧
      s.threadAt 0 = .asleep ∧
      s.queueCount ≤ (Finset.univ.filter fun j => s.threadAt j = .lock).card := by
  have hend : (run step (initServers 2) oneWoken).map (fun s =>
      (s.queueCount, s.threadAt 0, s.mutex .queue)) = some (1, .asleep, none) := by decide
  obtain ⟨s, hrun, hs⟩ := Option.map_eq_some_iff.mp hend
  obtain ⟨hcount, hasleep, hfree⟩ := by simpa only [Prod.mk.injEq] using hs
  exact ⟨s, hrun, hcount, hasleep, no_lost_wakeup (Reachable.of_run rfl hrun) hfree hasleep⟩

end UnixLessons.ClientQueue

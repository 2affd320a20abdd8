import UnixLessons.ClientQueue.Ownership

/-!
# Every client is served once, in order

What the soundness of the queue means for a client: it is in the queue, with one
service thread, or its connection is closed; clients leave the queue in the order
in which they entered it; and a connection is closed once, by the main thread
that refused the client or by the service thread that took it out of the queue.

The one reply before that is another matter. It is lost when the client has reset
the connection, perhaps with the process and all other clients, and the time in
it is that of another client when two threads call `ctime` before either sends.

## Main results

* `closes_of_step`: who closes a connection
* `Fair.step`: what keeps the replies in order
* `clients_served`: the way of every client in all reachable states
-/

namespace UnixLessons.ClientQueue

open Text Arrays Transition

variable {n : ℕ} {owner : ℕ → Option (Owner n)} {s t : Server n} {i : Fin n} {k : ℕ}

/-- The client waits in the queue. -/
def Queued (s : Server n) (k : ℕ) : Prop := k ∈ s.contents

/-- Service thread `i` has taken the client out of the queue and not closed its
connection. -/
def Held (s : Server n) (i : Fin n) (k : ℕ) : Prop := (s.threadAt i).conn = some k

def Closed (s : Server n) (k : ℕ) : Prop := (s.conn k).closes ≠ 0

/-- The main thread has accepted the client and its call of `enqueue_client` has
not settled what becomes of it. -/
def WithMain (s : Server n) (k : ℕ) : Prop := s.mainAt.conn = some k

/-- Exactly one of the three states of a client that was handed over. -/
def OneState (s : Server n) (k : ℕ) : Prop :=
  (Queued s k ∧ (∀ i, ¬ Held s i k) ∧ ¬ Closed s k) ∨
  (¬ Queued s k ∧ (∃! i, Held s i k) ∧ ¬ Closed s k) ∨
  (¬ Queued s k ∧ (∀ i, ¬ Held s i k) ∧ Closed s k)

namespace Sound

private theorem closed_iff (h : Sound owner s) : Closed s k ↔ owner k = some .closed := by
  rw [Closed, h.records.closes]
  split <;> simp_all

private theorem held_iff (h : Sound owner s) : Held s i k ↔ owner k = some (.thread i) :=
  h.custody.thread_iff i k

private theorem queued_iff (h : Sound owner s) : Queued s k ↔ owner k = some .queue :=
  h.custody.queue_iff k

theorem oneState (h : Sound owner s) (hk : k < s.next) (hmain : ¬ WithMain s k) :
    OneState s k := by
  have harrived := (h.custody.arrived_iff k).mp hk
  have hmain : owner k ≠ some .main := fun howner => hmain ((h.custody.main_iff k).mpr howner)
  simp only [OneState, h.queued_iff, h.held_iff, h.closed_iff]
  cases howner : owner k with
  | none => exact absurd howner harrived
  | some o =>
    cases o with
    | main => exact absurd howner hmain
    | queue => simp
    | thread i => exact Or.inr (Or.inl (by simp [ExistsUnique]))
    | closed => simp

theorem length_replies_le (h : Sound owner s) (hk : k < s.next) :
    (s.conn k).replies.length ≤ 1 := by
  cases howner : owner k with
  | none => exact absurd howner ((h.custody.arrived_iff k).mp hk)
  | some o =>
    cases o with
    | main =>
      have hat := (h.custody.main_iff k).mpr howner
      have hknows := h.mainKnows
      cases hpc : s.mainAt with
      | read k' fd addr =>
        rw [hpc] at hat hknows
        obtain rfl := Option.some.inj hat
        simp [hknows.2.1]
      | enqueue k' it pc =>
        rw [hpc] at hat hknows
        obtain rfl := Option.some.inj hat
        obtain ⟨-, hknows⟩ := hknows
        cases pc with
        | lock | test | sendFull => simp [show (s.conn k').replies = [] from hknows.1]
        | closeFull =>
          rcases hknows with hlost | ⟨-, hfull⟩
          · simp [hlost.2]
          · simp [hfull]
        | _ => simp [hknows.1.1]
      | _ => rw [hpc] at hat; cases hat
    | queue => simp [(h.records.waiting k howner).1]
    | thread i =>
      have hat := (h.custody.thread_iff i k).mpr howner
      have hknows := h.threadKnows i
      rw [Server.threadConn] at hat
      cases hpc : s.threadAt i with
      | holding k' it pc =>
        rw [hpc] at hat hknows
        obtain rfl := Option.some.inj hat
        obtain ⟨-, -, hknows⟩ := hknows
        cases pc with
        | close => exact hknows.length_le
        | ctime | sendError => simp [hknows.2.1]
        | sendTime => simp [hknows.2.2]
        | _ => simp [show (s.conn k').replies = [] from hknows.1]
      | _ => rw [hpc] at hat; cases hat
    | closed =>
      rcases h.records.closed k howner with ⟨-, hlost | hfull⟩ | ⟨-, hserved⟩
      · simp [hlost.2]
      · simp [hfull.2]
      · exact hserved.length_le

/-- Counter, front and rear fit together while nobody is in the critical section. -/
theorem counter (h : Sound owner s) (hfree : s.mutex .queue = none) :
    0 ≤ s.queueCount ∧ s.queueCount ≤ queueSize ∧
      (s.queueRear : ℤ) = (s.queueFront + s.queueCount) % queueSize := by
  have hcount := h.count_of_owed (by rw [Server.owed, hfree])
  have hle := h.ring.length_le
  rw [Server.items, List.length_map] at hle
  refine ⟨by omega, by omega, ?_⟩
  rw [hcount, h.rear]
  push_cast
  rfl

end Sound

/-! ### Who closes a connection -/

private theorem closes_send (fd : ℕ) (text : CString) :
    ((s.send fd text).conn k).closes = (s.conn k).closes := by
  unfold Server.send
  split
  · rename_i k' _
    split
    · by_cases hk : k = k'
      · subst hk; simp [Server.setConn]
      · simp [Server.setConn, hk]
    · rfl
    · rfl
  · rfl

private theorem closes_close {it : Item} {k' : ℕ}
    (hopen : s.openFd it.clientFd = some k') (hk : k ≠ k') :
    ((s.close it.clientFd).conn k).closes = (s.conn k).closes := by
  rw [Server.close, hopen]
  simp [Server.setConn, hk]

private theorem openFd_main (h : Sound owner s) {it : Item} {pc : EnqueuePc}
    (hat : s.mainAt = .enqueue k it pc) : s.openFd it.clientFd = some k := by
  have hknows := h.mainKnows
  rw [hat] at hknows
  have howner := (h.custody.main_iff k).mp (by rw [hat]; rfl)
  have hopen := h.records.openFd_of_owner howner (by simp)
  rwa [hknows.1] at hopen

private theorem openFd_thread (h : Sound owner s) {it : Item}
    (hat : s.threadAt i = .holding k it .close) : s.openFd it.clientFd = some k := by
  have hknows := h.threadKnows i
  rw [hat] at hknows
  have howner := (h.custody.thread_iff i k).mp (by rw [Server.threadConn, hat]; rfl)
  have hopen := h.records.openFd_of_owner howner (by simp)
  rwa [← hknows.1] at hopen

private theorem closes_mainStep (h : Sound owner s) (hstep : mainStep s = some t)
    (hne : (t.conn k).closes ≠ (s.conn k).closes) :
    ∃ it, s.mainAt = .enqueue k it .closeFull := by
  unfold mainStep at hstep
  split at hstep
  · rename_i k' it pc hat
    cases pc with
    | closeFull =>
      obtain rfl := Option.some.inj hstep
      by_cases hk : k = k'
      · exact ⟨it, hk ▸ hat⟩
      · exact absurd (closes_close (openFd_main h hat) hk) hne
    | sendFull =>
      obtain rfl := Option.some.inj hstep
      exact absurd (closes_send _ _) hne
    | lock =>
      simp only [enqueueClient] at hstep
      split at hstep
      · exact absurd (Option.some.inj hstep ▸ rfl) hne
      · cases hstep
    | _ => exact absurd (Option.some.inj hstep ▸ rfl) hne
  · exact absurd (Option.some.inj hstep ▸ rfl) hne
  · exact absurd (Option.some.inj hstep ▸ rfl) hne
  · cases hstep
  · cases hstep
  · cases hstep

private theorem closes_service (h : Sound owner s) {now : CString}
    (hstep : serviceServerThread s i now = some t)
    (hne : (t.conn k).closes ≠ (s.conn k).closes) :
    ∃ it, s.threadAt i = .holding k it .close := by
  unfold serviceServerThread at hstep
  cases hat : s.threadAt i with
  | holding k' it pc =>
    simp only [hat] at hstep
    -- Only `close` touches the count of closings, and only that of the connection held.
    cases pc with
    | close =>
      obtain rfl := Option.some.inj hstep
      by_cases hk : k = k'
      · exact ⟨it, by rw [hk]⟩
      · exact absurd (closes_close (openFd_thread h hat) hk) hne
    | sendTime | sendError =>
      obtain rfl := Option.some.inj hstep
      exact absurd (closes_send _ _) hne
    | ctime =>
      obtain rfl := Option.some.inj hstep
      refine absurd ?_ hne
      by_cases hk : k = k'
      · subst hk; simp [Server.setConn, Server.threadGoto]
      · simp [Server.setConn, Server.threadGoto, hk]
    | decrement | unlock | compare => exact absurd (Option.some.inj hstep ▸ rfl) hne
  | serverLock =>
    simp only [hat] at hstep
    split at hstep
    · exact absurd (Option.some.inj hstep ▸ rfl) hne
    · cases hstep
  | serverTest =>
    simp only [hat] at hstep
    split at hstep
    · exact absurd (Option.some.inj hstep ▸ rfl) hne
    · exact absurd (Option.some.inj hstep ▸ rfl) hne
  | lock =>
    simp only [hat] at hstep
    split at hstep
    · exact absurd (Option.some.inj hstep ▸ rfl) hne
    · cases hstep
  | test =>
    simp only [hat] at hstep
    split at hstep
    · exact absurd (Option.some.inj hstep ▸ rfl) hne
    · exact absurd (Option.some.inj hstep ▸ rfl) hne
  | releaseLock =>
    simp only [hat] at hstep
    split at hstep
    · exact absurd (Option.some.inj hstep ▸ rfl) hne
    · cases hstep
  | serverAsleep => simp [hat] at hstep
  | asleep => simp [hat] at hstep
  | _ =>
    simp only [hat] at hstep
    exact absurd (Option.some.inj hstep ▸ rfl) hne

/-- A connection is closed by the main thread that found the queue full, or by
the service thread that has it. -/
theorem closes_of_step (h : Sound owner s) {a : Action n} (hstep : step s a = some t)
    (hne : (t.conn k).closes ≠ (s.conn k).closes) :
    (∃ it, s.mainAt = .enqueue k it .closeFull) ∨
      ∃ i it, s.threadAt i = .holding k it .close := by
  obtain ⟨-, hstep⟩ := act_of_step hstep
  cases a with
  | main => exact Or.inl (closes_mainStep h hstep hne)
  | service i now => exact Or.inr ⟨i, closes_service h hstep hne⟩
  | accept fd addr =>
    simp only [act, acceptClient] at hstep
    split at hstep
    · obtain rfl := Option.some.inj hstep
      refine absurd ?_ hne
      by_cases hk : k = s.next
      · have hnone : owner s.next = none := by
          by_contra hsome
          exact absurd ((h.custody.arrived_iff s.next).mpr hsome) (Nat.lt_irrefl _)
        subst hk
        simp [Server.setConn, Conn.accepted, h.records.closes, hnone]
      · simp [Server.setConn, hk]
    · cases hstep
  | read bytes =>
    simp only [act, readMessage] at hstep
    split at hstep
    · rename_i k' _ _ _
      obtain rfl := Option.some.inj hstep
      refine absurd ?_ hne
      by_cases hk : k = k'
      · subst hk; simp [Server.setConn, Server.mainGoto]
      · simp [Server.setConn, Server.mainGoto, hk]
    · cases hstep
  | signal woken =>
    simp only [act, signal] at hstep
    split at hstep
    · exact absurd (Option.some.inj hstep ▸ rfl) hne
    · cases hstep
  | wakeUp i =>
    simp only [act, wakeUp] at hstep
    split at hstep
    · exact absurd (Option.some.inj hstep ▸ rfl) hne
    · exact absurd (Option.some.inj hstep ▸ rfl) hne
    · cases hstep
  | reset k' broken =>
    simp only [act, reset] at hstep
    split at hstep
    · obtain rfl := Option.some.inj hstep
      refine absurd ?_ hne
      by_cases hk : k = k'
      · subst hk; simp [Server.setConn]
      · simp [Server.setConn, hk]
    · cases hstep

/-! ### What keeps the replies in order -/

/-- The thread is about to call `ctime`. -/
def ThreadPc.asks : ThreadPc → Bool
  | .holding _ _ .ctime => true
  | _ => false

/-- The thread has called `ctime` and has still to send the text. -/
def ThreadPc.told : ThreadPc → Bool
  | .holding _ _ .sendTime => true
  | _ => false

/-- A client resets its connection only after the reply, and no thread calls
`ctime` while another one has still to send the text of its own call. -/
def Undisturbed (s : Server n) : Action n → Prop
  | .reset k _ => (s.conn k).replies ≠ []
  | .service i _ => (s.threadAt i).asks = true → ∀ j, (s.threadAt j).told = false
  | _ => True

instance (s : Server n) : ∀ a, Decidable (Undisturbed s a)
  | .reset _ _ => inferInstanceAs (Decidable (_ ≠ _))
  | .service _ _ => inferInstanceAs (Decidable (_ → _))
  | .accept _ _ | .read _ | .main | .signal _ | .wakeUp _ => inferInstanceAs (Decidable True)

/-- No reply is lost, and a thread that is about to send the time finds the text
that it has asked for. -/
structure Fair (s : Server n) : Prop where
  alive : s.killed = false
  unbroken : ∀ k, (s.conn k).broken ≠ none → (s.conn k).replies ≠ []
  text : ∀ i k it, s.threadAt i = .holding k it .sendTime → (s.conn k).time = some s.timeText
  own : ∀ k now, (s.conn k).time = some now → (s.conn k).replies = [] ∨ (s.conn k).replies = [now]

namespace Fair

theorem initServers : Fair (initServers n) where
  alive := rfl
  unbroken _ h := absurd rfl h
  text _ _ _ h := by cases h
  own _ _ h := by cases h

theorem congr (h : Fair s) (hkilled : t.killed = s.killed) (htext : t.timeText = s.timeText)
    (hconn : t.conn = s.conn)
    (hthread : ∀ i k it, t.threadAt i = .holding k it .sendTime →
      s.threadAt i = .holding k it .sendTime) : Fair t := by
  refine ⟨hkilled.trans h.alive, ?_, fun i k it hat => ?_, ?_⟩
  · rw [hconn]
    exact h.unbroken
  · rw [hconn, htext]
    exact h.text i k it (hthread i k it hat)
  · rw [hconn]
    exact h.own

theorem mainGoto (h : Fair s) (pc : MainPc) : Fair (s.mainGoto pc) :=
  h.congr rfl rfl rfl fun _ _ _ => id

/-- A thread goes anywhere but to the sending of the time. -/
theorem threadGoto (h : Fair s) {pc : ThreadPc} (hpc : pc.told = false) :
    Fair (s.threadGoto i pc) := by
  refine h.congr rfl rfl rfl fun j k it hat => ?_
  change Function.update s.threadAt i pc j = _ at hat
  by_cases hj : j = i
  · subst hj
    rw [Function.update_self] at hat
    rw [hat] at hpc
    cases hpc
  · rwa [Function.update_of_ne hj] at hat

theorem setConn (h : Fair s) {x : Conn} (hbroken : x.broken ≠ none → x.replies ≠ [])
    (htext : ∀ i it, s.threadAt i = .holding k it .sendTime → x.time = some s.timeText)
    (hown : ∀ now, x.time = some now → x.replies = [] ∨ x.replies = [now]) :
    Fair (s.setConn k x) := by
  refine ⟨h.alive, fun k' => ?_, fun i k' it hat => ?_, fun k' => ?_⟩ <;> by_cases hk : k' = k
  · subst hk; simpa [Server.setConn] using hbroken
  · simpa [Server.setConn, hk] using h.unbroken k'
  · subst hk; simpa [Server.setConn] using htext i it hat
  · simpa [Server.setConn, hk] using h.text i k' it hat
  · subst hk; simpa [Server.setConn] using hown
  · simpa [Server.setConn, hk] using h.own k'

/-- Whatever happens to a connection besides resets, replies and the time. -/
theorem setItem (h : Fair s) (k : ℕ) (item : Item) (closes : ℕ) :
    Fair (s.setConn k { s.conn k with item, closes }) :=
  h.setConn (h.unbroken k) (fun i it hat => h.text i k it hat) (h.own k)

/-- What is sent first on a connection arrives, and it has to be the time that was
asked for. -/
theorem send (h : Fair s) {fd : ℕ} (text : CString) (hopen : s.openFd fd = some k)
    (hreplies : (s.conn k).replies = [])
    (hown : ∀ now, (s.conn k).time = some now → text = now) : Fair (s.send fd text) := by
  have hbroken : (s.conn k).broken = none := by
    by_contra hbroken
    exact h.unbroken k hbroken hreplies
  rw [Server.send_eq hopen hbroken, hreplies]
  refine h.setConn (fun _ => by simp) (fun i it hat => h.text i k it hat) fun now hnow => ?_
  exact .inr (by rw [hown now hnow]; rfl)

theorem close (h : Fair s) (fd : ℕ) : Fair (s.close fd) := by
  unfold Server.close
  split
  · exact (h.setItem _ _ _).congr rfl rfl rfl fun _ _ _ => id
  · exact h

private theorem mainStep (h : Fair s) (hsound : Sound owner s) (hstep : mainStep s = some t) :
    Fair t := by
  unfold ClientQueue.mainStep at hstep
  split at hstep
  · rename_i k it pc hat
    have hknows := hsound.mainKnows
    rw [hat] at hknows
    cases pc with
    | lock =>
      simp only [enqueueClient] at hstep
      split at hstep
      · exact Option.some.inj hstep ▸ h.congr rfl rfl rfl fun _ _ _ => id
      · cases hstep
    | sendFull =>
      obtain ⟨-, hreplies, htime⟩ := hknows
      have hsent := h.send errorQueueFull (openFd_main hsound hat) hreplies fun now hnow =>
        by rw [htime] at hnow; cases hnow
      exact Option.some.inj hstep ▸ hsent.mainGoto _
    | closeFull => exact Option.some.inj hstep ▸ (h.close _).mainGoto _
    | _ => exact Option.some.inj hstep ▸ h.congr rfl rfl rfl fun _ _ _ => id
  · exact Option.some.inj hstep ▸ h.congr rfl rfl rfl fun _ _ _ => id
  · exact Option.some.inj hstep ▸ h.congr rfl rfl rfl fun _ _ _ => id
  · cases hstep
  · cases hstep
  · cases hstep

/-- The buffer of `ctime` is the thread's that has called it, if no other one has still to send
from it. -/
private theorem ctime (h : Fair s) {it : Item} (now : CString) (hreplies : (s.conn k).replies = [])
    (hfree : ∀ j, (s.threadAt j).told = false) :
    Fair { (s.setConn k { s.conn k with time := some now }).threadGoto i
        (.holding k it .sendTime) with
      timeText := now } := by
  have hnobody : ∀ j k' it', s.threadAt j ≠ .holding k' it' .sendTime := by
    intro j k' it' hat
    have hfree := hfree j
    rw [hat] at hfree
    cases hfree
  have hset : Fair (s.setConn k { s.conn k with time := some now }) :=
    h.setConn (h.unbroken k) (fun j it' hat => absurd hat (hnobody j k it')) fun _ _ =>
      .inl hreplies
  refine ⟨hset.alive, hset.unbroken, fun j k' it' hat => ?_, hset.own⟩
  by_cases hj : j = i
  · subst hj
    obtain ⟨rfl, -⟩ := ThreadPc.holding.inj ((Function.update_self ..).symm.trans hat)
    exact congrArg Conn.time (Function.update_self (f := s.conn) ..)
  · exact absurd ((Function.update_of_ne hj _ _).symm.trans hat) (hnobody j k' it')

private theorem hold (h : Fair s) (hsound : Sound owner s) {it : Item} {pc : HoldPc}
    {now : CString} (hcond : Undisturbed s (.service i now))
    (hat : s.threadAt i = .holding k it pc) (hstep : hold s i now k it pc = some t) : Fair t := by
  have hknows := hsound.threadKnows i
  rw [hat] at hknows
  obtain ⟨hit, -, hknows⟩ := hknows
  have hopen : s.openFd it.clientFd = some k :=
    hsound.openFd_eq ((hsound.custody.thread_iff i k).mp (by rw [Server.threadConn, hat]; rfl))
      (by simp) hit.symm
  cases pc with
  | decrement | unlock =>
    exact Option.some.inj hstep ▸ (h.threadGoto (i := i) rfl).congr rfl rfl rfl fun _ _ _ => id
  | compare =>
    obtain rfl := Option.some.inj hstep
    refine h.threadGoto ?_
    split <;> rfl
  | ctime =>
    exact Option.some.inj hstep ▸ h.ctime now hknows.2.1 (hcond (by rw [hat]; rfl))
  | sendTime =>
    have htext := h.text i k it hat
    have hsent := h.send s.timeText hopen hknows.2.2 fun now hnow =>
      Option.some.inj (htext.symm.trans hnow)
    exact Option.some.inj hstep ▸ hsent.threadGoto rfl
  | sendError =>
    have hsent := h.send errorStringTime hopen hknows.2.1 fun now hnow =>
      by rw [hknows.2.2] at hnow; cases hnow
    exact Option.some.inj hstep ▸ hsent.threadGoto rfl
  | close => exact Option.some.inj hstep ▸ (h.close _).threadGoto rfl

private theorem serviceServerThread (h : Fair s) (hsound : Sound owner s) {now : CString}
    (hcond : Undisturbed s (.service i now)) (hstep : serviceServerThread s i now = some t) :
    Fair t := by
  unfold ClientQueue.serviceServerThread at hstep
  cases hat : s.threadAt i with
  | serverLock | lock | releaseLock =>
    simp only [hat] at hstep
    split at hstep
    · exact Option.some.inj hstep ▸ (h.threadGoto (i := i) rfl).congr rfl rfl rfl fun _ _ _ => id
    · cases hstep
  | serverTest | test =>
    simp only [hat] at hstep
    split at hstep <;>
      exact Option.some.inj hstep ▸ (h.threadGoto (i := i) rfl).congr rfl rfl rfl fun _ _ _ => id
  | asleep | serverAsleep => simp [hat] at hstep
  | holding k it pc =>
    simp only [hat] at hstep
    exact h.hold hsound hcond hat hstep
  | _ =>
    simp only [hat, Option.some_inj] at hstep
    exact hstep ▸ (h.threadGoto (i := i) rfl).congr rfl rfl rfl fun _ _ _ => id

/-- An undisturbed statement of any thread leaves the replies in order. -/
theorem step (h : Fair s) (hsound : Sound owner s) {a : Action n} (hcond : Undisturbed s a)
    (hstep : step s a = some t) : Fair t := by
  obtain ⟨-, hstep⟩ := act_of_step hstep
  cases a with
  | accept fd addr =>
    simp only [act, acceptClient] at hstep
    split at hstep
    · -- nobody can have the connection before
      have hnew : ∀ j it, s.threadAt j ≠ .holding s.next it .sendTime := by
        intro j it hat
        have howner := (hsound.custody.thread_iff j s.next).mp (by rw [Server.threadConn, hat]; rfl)
        have hlt := (hsound.custody.arrived_iff s.next).mpr (by simp [howner])
        exact Nat.lt_irrefl _ hlt
      have hset : Fair (s.setConn s.next (.accepted fd addr)) :=
        h.setConn (fun hne => absurd rfl hne) (fun j it hat => absurd hat (hnew j it))
          fun _ _ => .inl rfl
      exact Option.some.inj hstep ▸ hset.congr rfl rfl rfl fun _ _ _ => id
    · cases hstep
  | read bytes =>
    simp only [act, readMessage] at hstep
    split at hstep
    · exact Option.some.inj hstep ▸ (h.setItem _ _ _).mainGoto _
    · cases hstep
  | main => exact h.mainStep hsound hstep
  | signal woken =>
    simp only [act, signal] at hstep
    split at hstep
    · refine Option.some.inj hstep ▸ h.congr rfl rfl rfl fun j k it hat => ?_
      dsimp only at hat
      split at hat
      · cases hat
      · exact hat
    · cases hstep
  | service i now => exact h.serviceServerThread hsound hcond hstep
  | wakeUp i =>
    simp only [act, wakeUp] at hstep
    split at hstep
    · exact Option.some.inj hstep ▸ h.threadGoto rfl
    · exact Option.some.inj hstep ▸ h.threadGoto rfl
    · cases hstep
  | reset k broken =>
    simp only [act, reset] at hstep
    split at hstep
    · exact Option.some.inj hstep ▸ h.setConn (fun _ => hcond)
        (fun j it hat => h.text j k it hat) (h.own k)
    · cases hstep

/-- A client that was served has got its own reply. -/
theorem ownReply (h : Fair s) (hserved : (s.conn k).Served) : OwnReply (s.conn k) := by
  rcases hserved with ⟨hbroken, hnil⟩ | ⟨hasks, now, text, htime, htext⟩ | ⟨hnot, -, herror⟩
  · exact absurd hnil (h.unbroken k hbroken)
  · refine .inl ⟨hasks, now, htime, ?_⟩
    exact (h.own k now htime).resolve_left (by simp [htext])
  · exact .inr ⟨hnot, herror⟩

end Fair

/-- No process has ended under its clients, and every connection was closed after
one reply: the refusal, or the reply to the client's own message. -/
structure AllAnswered (s : Server n) : Prop where
  alive : s.killed = false
  replied : ∀ k, Closed s k → (k ∉ s.accepted ∧ (s.conn k).replies = [errorQueueFull]) ∨
    (k ∈ s.dequeued ∧ OwnReply (s.conn k))

theorem Fair.allAnswered (h : Fair s) (hsound : Sound owner s) : AllAnswered s := by
  refine ⟨h.alive, fun k hclosed => ?_⟩
  rcases hsound.records.closed k (hsound.closed_iff.mp hclosed) with ⟨hout, hfull⟩ | ⟨hin, hserved⟩
  · refine .inl ⟨hout, hfull.elim (fun hlost => ?_) And.right⟩
    exact absurd hlost.2 (h.unbroken k hlost.1)
  · exact .inr ⟨hin, h.ownReply hserved⟩

/-- The replies are in order at the end of an undisturbed run. -/
theorem fair_of_undisturbed {acts : List (Action n)} (hrun : run step (initServers n) acts = some s)
    (hcond : Along step Undisturbed (initServers n) acts) : Fair s := by
  have hkeeps : ∀ ⦃s : Server n⦄ ⦃a t⦄, Fair s ∧ (∃ owner, Sound owner s) → Undisturbed s a →
      step s a = some t → Fair t ∧ ∃ owner, Sound owner t := by
    rintro s a t ⟨hfair, owner, hsound⟩ hcond hstep
    exact ⟨hfair.step hsound hcond hstep, Sound.preserved ⟨owner, hsound⟩ hstep⟩
  exact (hcond.run hkeeps ⟨.initServers, _, Sound.initServers⟩ hrun).1

/-! ### The main result -/

/-- **Every client is served once, in order.** At the end of every run, with any
interleaving of the main thread, the service threads and the clients: counter,
front and rear fit together while the queue is not in use, and its cells hold the
clients that are in it; clients have left it in the order in which they entered
it; a service thread has the address and the message of its client; a client that
was handed over is in exactly one state; and a connection is closed at most once,
after at most one reply, by the main thread that found the queue full or the
service thread that took it out. If moreover the run was undisturbed, the process
lives and every client whose connection is closed has got the reply to its own
message. -/
theorem clients_served {acts : List (Action n)} (hrun : run step (initServers n) acts = some s) :
    (s.mutex .queue = none → 0 ≤ s.queueCount ∧ s.queueCount ≤ queueSize ∧
      (s.queueRear : ℤ) = (s.queueFront + s.queueCount) % queueSize ∧
      ∀ j k, s.contents[j]? = some k →
        s.clientQueue ((s.queueFront + j) % queueSize) = (s.conn k).item) ∧
    (s.queueFront < queueSize ∧ s.queueRear < queueSize) ∧
    s.accepted = s.dequeued ++ s.contents ∧
    (∀ i k it pc, s.threadAt i = .holding k it pc → it = (s.conn k).item ∧ k ∈ s.dequeued) ∧
    (∀ k < s.next, ¬ WithMain s k → OneState s k) ∧
    (∀ k < s.next, (s.conn k).closes ≤ 1 ∧ (s.conn k).replies.length ≤ 1) ∧
    (∀ a t k, step s a = some t → (t.conn k).closes ≠ (s.conn k).closes →
      (∃ it, s.mainAt = .enqueue k it .closeFull) ∨
        ∃ i it, s.threadAt i = .holding k it .close) ∧
    (Along step Undisturbed (initServers n) acts → AllAnswered s) := by
  obtain ⟨owner, h⟩ := Sound.reachable (Reachable.of_run rfl hrun)
  refine ⟨fun hfree => ?_, ⟨h.ring.front_lt, ?_⟩, h.history, fun i k it pc hat => ?_,
    fun k hk hmain => h.oneState hk hmain, fun k hk => ⟨?_, h.length_replies_le hk⟩,
    fun a t k hstep hne => closes_of_step h hstep hne,
    fun hcond => (fair_of_undisturbed hrun hcond).allAnswered h⟩
  · obtain ⟨hnonneg, hle, hrear⟩ := h.counter hfree
    refine ⟨hnonneg, hle, hrear, fun j k hj => h.ring.holds j _ ?_⟩
    rw [Server.items, List.getElem?_map, hj]
    rfl
  · rw [h.rear]
    exact Nat.mod_lt _ (Nat.zero_lt_succ 9)
  · have hknows := h.threadKnows i
    rw [hat] at hknows
    exact ⟨hknows.1, hknows.2.1⟩
  · rw [h.records.closes]
    split <;> simp

/-- The loopback address and a port. -/
def local5000 : Addr := (2130706433, 5000)

/-- The main thread accepts a client, reads its message and puts it into the queue. -/
def arrival (fd : ℕ) (message : CString) : List (Action n) :=
  [.accept fd local5000, .read message] ++ List.replicate 7 .main ++ [.signal [], .main]

/-- Two clients; the first one asks for the time, and resets its connection when it has got it. -/
def twoClients (first second : Fin 2) : List (Action 2) :=
  arrival 4 "TIME\n".toList ++ arrival 5 "HELLO\n".toList ++
    List.replicate 15 (.service first "noon\n".toList) ++ [.reset 0 .error] ++
    List.replicate 2 (.service first []) ++ List.replicate 16 (.service second [])

theorem clients_served_twoClients :
    ∃ s, run step (initServers 2) (twoClients 0 1) = some s ∧ Closed s 0 ∧ Closed s 1 ∧
      s.dequeued = [0, 1] ∧ OneState s 1 ∧ AllAnswered s := by
  have hend : (run step (initServers 2) (twoClients 0 1)).map (fun s =>
      ((s.conn 0).closes, (s.conn 1).closes, s.dequeued, s.next, s.mainAt)) =
      some (1, 1, [0, 1], 2, .accept) := rfl
  obtain ⟨s, hrun, hs⟩ := Option.map_eq_some_iff.mp hend
  obtain ⟨hfirst, hsecond, hdequeued, hnext, hmain⟩ := by simpa only [Prod.mk.injEq] using hs
  obtain ⟨-, -, -, -, hone, -, -, hanswered⟩ := clients_served hrun
  have hcond : Along step Undisturbed (initServers 2) (twoClients 0 1) := by decide
  have harrived : 1 < s.next := by omega
  have houtside : ¬ WithMain s 1 := by simp [WithMain, hmain, MainPc.conn]
  exact ⟨s, hrun, by simp [Closed, hfirst], by simp [Closed, hsecond], hdequeued,
    hone 1 harrived houtside, hanswered hcond⟩

/-- The first of two clients resets its connection while both are in the queue. -/
def resetEarly (broken : Broken) : List (Action 1) :=
  arrival 4 "TIME\n".toList ++ arrival 5 "TIME\n".toList ++ [.reset 0 broken] ++
    List.replicate 15 (.service 0 "noon\n".toList)

/-- Both threads have called `ctime` before the first one sends. -/
def sharedText (first second : Fin 2) : List (Action 2) :=
  arrival 4 "TIME\n".toList ++ arrival 5 "TIME\n".toList ++
    List.replicate 14 (.service first "noon\n".toList) ++
    List.replicate 14 (.service second "one\n".toList) ++ List.replicate 2 (.service first [])

/-- A reply is lost; the process is ended with a client in the queue; a client gets the time of
another one. -/
theorem not_clients_served :
    (∃ s, run step (initServers 1) (resetEarly .error ++ [.service 0 []]) = some s ∧
      Closed s 0 ∧ (s.conn 0).replies = [] ∧ ¬ AllAnswered s) ∧
    (∃ s, run step (initServers 1) (resetEarly .sigpipe) = some s ∧
      s.killed = true ∧ Queued s 1 ∧ ¬ AllAnswered s) ∧
    ∃ s, run step (initServers 2) (sharedText 0 1) = some s ∧ Closed s 0 ∧
      (s.conn 0).time = some "noon\n".toList ∧ (s.conn 0).replies = ["one\n".toList] ∧
      ¬ AllAnswered s := by
  refine ⟨?_, ?_, ?_⟩
  · have hend : (run step (initServers 1) (resetEarly .error ++ [.service 0 []])).map
        (fun s => ((s.conn 0).closes, (s.conn 0).replies)) = some (1, []) := rfl
    obtain ⟨s, hrun, hs⟩ := Option.map_eq_some_iff.mp hend
    obtain ⟨hcloses, hnil⟩ := Prod.mk.inj hs
    have hclosed : Closed s 0 := by simp [Closed, hcloses]
    refine ⟨s, hrun, hclosed, hnil, fun h => ?_⟩
    rcases h.replied 0 hclosed with ⟨-, hfull⟩ | ⟨-, ⟨-, now, -, hnow⟩ | ⟨-, herror⟩⟩
    · simp [hnil] at hfull
    · simp [hnil] at hnow
    · simp [hnil] at herror
  · have hend : (run step (initServers 1) (resetEarly .sigpipe)).map
        (fun s => (s.killed, s.contents)) = some (true, [1]) := rfl
    obtain ⟨s, hrun, hs⟩ := Option.map_eq_some_iff.mp hend
    obtain ⟨hkilled, hcontents⟩ := Prod.mk.inj hs
    refine ⟨s, hrun, hkilled, by simp [Queued, hcontents], fun h => ?_⟩
    exact Bool.false_ne_true (h.alive.symm.trans hkilled)
  · have hend : (run step (initServers 2) (sharedText 0 1)).map
        (fun s => ((s.conn 0).closes, (s.conn 0).time, (s.conn 0).replies)) =
        some (1, some "noon\n".toList, ["one\n".toList]) := rfl
    obtain ⟨s, hrun, hs⟩ := Option.map_eq_some_iff.mp hend
    obtain ⟨hcloses, htime, hone⟩ := by simpa only [Prod.mk.injEq] using hs
    have hclosed : Closed s 0 := by simp [Closed, hcloses]
    refine ⟨s, hrun, hclosed, htime, hone, fun h => ?_⟩
    rcases h.replied 0 hclosed with ⟨-, hfull⟩ | ⟨-, ⟨-, now, hnow, htext⟩ | ⟨-, herror⟩⟩
    · rw [hone] at hfull
      exact absurd hfull (by decide)
    · -- the text it got is not the one that was asked for
      obtain rfl := Option.some.inj (htime.symm.trans hnow)
      rw [hone] at htext
      exact absurd htext (by decide)
    · rw [hone] at herror
      exact absurd herror (by decide)

end UnixLessons.ClientQueue

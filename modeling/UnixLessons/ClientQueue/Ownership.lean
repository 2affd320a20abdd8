import UnixLessons.Arrays.Ring
import UnixLessons.ClientQueue.Custody

/-!
# The queue of clients is sound

The move of the rear puts the connection of the main thread into the queue, the
move of the front gives the first one to a service thread; the counter follows
one statement later. Between the two moves the ring holds the items of the
connections in the queue, whole and in order, and only the thread that holds the
mutex can be in between.

## Main results

* `Sound`: the ring, the counter, the mutexes and the owners of the connections
* `Sound.preserved`: every statement of every thread keeps them sound
-/

namespace UnixLessons.ClientQueue

open Text Threads Arrays Transition

variable {n : ℕ}

/-! ### What the places in the code say -/

/-- The connection the main thread has. -/
def MainPc.conn : MainPc → Option ℕ
  | .read k _ _ | .enqueue k _ _ => some k
  | .accept | .increment | .signal | .unlock => none

/-- The connection a service thread has. -/
def ThreadPc.conn : ThreadPc → Option ℕ
  | .holding k _ _ => some k
  | _ => none

/-- The mutex the main thread holds. -/
def MainPc.place : MainPc → Option (Mutex n)
  | .accept | .read _ _ _ | .enqueue _ _ .lock => none
  | .enqueue _ _ _ | .increment | .signal | .unlock => some .queue

/-- The mutex a service thread holds. -/
def ThreadPc.place (i : Fin n) : ThreadPc → Option (Mutex n)
  | .serverTest | .serverSet | .serverUnlock | .reset | .releaseSignal | .releaseUnlock =>
    some (.server i)
  | .test | .copyFd | .copyAddr _ | .copyMessage _ _ | .advance _ | .holding _ _ .decrement
  | .holding _ _ .unlock => some .queue
  | .serverLock | .serverAsleep | .lock | .asleep | .holding _ _ _ | .releaseLock => none

def Server.place (s : Server n) : Thread n → Option (Mutex n)
  | .main => s.mainAt.place
  | .service i => (s.threadAt i).place i

/-- How far the counter is behind the queue. -/
def MainPc.owed : MainPc → ℤ
  | .increment => 1
  | _ => 0

def ThreadPc.owed : ThreadPc → ℤ
  | .holding _ _ .decrement => -1
  | _ => 0

/-- Only the thread in the critical section can owe the counter something. -/
def Server.owed (s : Server n) : ℤ :=
  match s.mutex .queue with
  | none => 0
  | some .main => s.mainAt.owed
  | some (.service i) => (s.threadAt i).owed

/-- What the main thread knows of its client and of the free cell. -/
def EnqueuePc.Knows (s : Server n) (k : ℕ) (it : Item) : EnqueuePc → Prop
  | .lock | .test | .sendFull => (s.conn k).Fresh
  | .writeFd => (s.conn k).Fresh ∧ s.contents.length < queueSize
  | .writeAddr => (s.conn k).Fresh ∧ s.contents.length < queueSize ∧
    s.rearCell.clientFd = it.clientFd
  | .writeMessage => (s.conn k).Fresh ∧ s.contents.length < queueSize ∧
    s.rearCell.clientFd = it.clientFd ∧ s.rearCell.clientAddr = it.clientAddr
  | .advance => (s.conn k).Fresh ∧ s.contents.length < queueSize ∧ s.rearCell = it
  | .closeFull => (s.conn k).Lost ∨
    (s.conn k).time = none ∧ (s.conn k).replies = [errorQueueFull]

def MainPc.Knows (s : Server n) : MainPc → Prop
  | .read k fd _ => (s.conn k).item.clientFd = fd ∧ (s.conn k).Fresh
  | .enqueue k it pc => (s.conn k).item = it ∧ pc.Knows s k it
  | .accept | .increment | .signal | .unlock => True

/-- What a service thread knows of the client it has. -/
def HoldPc.Knows (x : Conn) : HoldPc → Prop
  | .decrement | .unlock | .compare => x.Fresh
  | .ctime => AsksTime x.item.message ∧ x.Fresh
  | .sendTime => AsksTime x.item.message ∧ (∃ now, x.time = some now) ∧ x.replies = []
  | .sendError => ¬ AsksTime x.item.message ∧ x.Fresh
  | .close => x.Served

/-- What a service thread knows of the first client and of the one it has. -/
def ThreadPc.Knows (conn : ℕ → Conn) (contents dequeued : List ℕ) : ThreadPc → Prop
  | .copyFd => ∃ k, contents.head? = some k
  | .copyAddr fd => ∃ k, contents.head? = some k ∧ fd = (conn k).item.clientFd
  | .copyMessage fd addr => ∃ k, contents.head? = some k ∧
    fd = (conn k).item.clientFd ∧ addr = (conn k).item.clientAddr
  | .advance it => ∃ k, contents.head? = some k ∧ it = (conn k).item
  | .holding k it pc => it = (conn k).item ∧ k ∈ dequeued ∧ pc.Knows (conn k)
  | _ => True

/-- The items in the queue. -/
def Server.items (s : Server n) : List Item := s.contents.map fun k => (s.conn k).item

/-- The connections of the service threads. -/
def Server.threadConn (s : Server n) (i : Fin n) : Option ℕ := (s.threadAt i).conn

/-- The queue is in order, and each connection is where `owner` says. -/
structure Sound (owner : ℕ → Option (Owner n)) (s : Server n) : Prop where
  guards : Guards s.mutex s.place
  ring : Ring s.clientQueue queueSize s.queueFront s.items
  rear : s.queueRear = (s.queueFront + s.contents.length) % queueSize
  count : s.queueCount + s.owed = s.contents.length
  mainKnows : s.mainAt.Knows s
  threadKnows : ∀ i, (s.threadAt i).Knows s.conn s.contents s.dequeued
  custody : Custody owner s.mainAt.conn s.threadConn s.contents s.next
  records : Records owner s.conn s.openFd s.accepted s.dequeued
  history : s.accepted = s.dequeued ++ s.contents

variable {owner : ℕ → Option (Owner n)} {s t : Server n} {i : Fin n} {k : ℕ} {it : Item}

/-! ### Frame rules

What a thread knows changes with its own connection only, and in the critical
section with the queue.
-/

private theorem EnqueuePc.Knows.congr {pc : EnqueuePc} (h : pc.Knows s k it)
    (hsame : (s.conn k).Same (t.conn k))
    (hqueue : MainPc.place (.enqueue k it pc) = some (Mutex.queue : Mutex n) →
      t.contents = s.contents ∧ t.rearCell = s.rearCell) : pc.Knows t k it := by
  cases pc with
  | lock | test | sendFull => exact Conn.Fresh.same h hsame
  | writeFd => exact ⟨h.1.same hsame, (hqueue rfl).1 ▸ h.2⟩
  | writeAddr | writeMessage | advance =>
    refine ⟨h.1.same hsame, (hqueue rfl).1 ▸ h.2.1, ?_⟩
    rw [(hqueue rfl).2]
    exact h.2.2
  | closeFull =>
    rw [Knows, hsame.replies, hsame.time]
    exact h.imp_left fun hlost => hlost.same hsame

private theorem HoldPc.Knows.same {pc : HoldPc} {x y : Conn} (h : pc.Knows x) (hsame : x.Same y) :
    pc.Knows y := by
  cases pc with
  | decrement | unlock | compare => exact Conn.Fresh.same h hsame
  | close => exact Conn.Served.same h hsame
  | ctime | sendError =>
    rw [Knows, hsame.item]
    exact ⟨h.1, h.2.same hsame⟩
  | sendTime =>
    rw [Knows, hsame.item, hsame.time, hsame.replies]
    exact h

private theorem MainPc.Knows.congr {pc : MainPc} (h : pc.Knows s)
    (hsame : ∀ k, pc.conn = some k → (s.conn k).Same (t.conn k))
    (hqueue : pc.place = some (Mutex.queue : Mutex n) →
      t.contents = s.contents ∧ t.rearCell = s.rearCell) : pc.Knows t := by
  cases pc with
  | read k fd addr => exact ⟨by rw [(hsame k rfl).item]; exact h.1, h.2.same (hsame k rfl)⟩
  | enqueue k it pc =>
    exact ⟨by rw [(hsame k rfl).item]; exact h.1, h.2.congr (hsame k rfl) hqueue⟩
  | _ => trivial

private theorem ThreadPc.Knows.congr {pc : ThreadPc} {conn conn' : ℕ → Conn}
    {contents contents' dequeued dequeued' : List ℕ} (h : pc.Knows conn contents dequeued)
    (hsame : ∀ k, pc.conn = some k → (conn k).Same (conn' k))
    (hqueue : pc.place i = some .queue → pc.conn = none → ∀ k, contents.head? = some k →
      contents'.head? = some k ∧ (conn' k).item = (conn k).item)
    (hdequeued : ∀ k ∈ dequeued, k ∈ dequeued') : pc.Knows conn' contents' dequeued' := by
  cases pc with
  | copyFd =>
    obtain ⟨k, hk⟩ := h
    exact ⟨k, (hqueue rfl rfl k hk).1⟩
  | copyAddr fd =>
    obtain ⟨k, hk, hfd⟩ := h
    obtain ⟨hhead, hitem⟩ := hqueue rfl rfl k hk
    exact ⟨k, hhead, by rw [hitem]; exact hfd⟩
  | copyMessage fd addr =>
    obtain ⟨k, hk, hfd, haddr⟩ := h
    obtain ⟨hhead, hitem⟩ := hqueue rfl rfl k hk
    exact ⟨k, hhead, by rw [hitem]; exact hfd, by rw [hitem]; exact haddr⟩
  | advance it =>
    obtain ⟨k, hk, hit⟩ := h
    obtain ⟨hhead, hitem⟩ := hqueue rfl rfl k hk
    exact ⟨k, hhead, by rw [hitem]; exact hit⟩
  | holding k it pc =>
    obtain ⟨hit, hdeq, hknows⟩ := h
    have hsame := hsame k rfl
    exact ⟨hit.trans hsame.item.symm, hdequeued k hdeq, hknows.same hsame⟩
  | _ => trivial

/-! ### Moves of the threads -/

private theorem place_mainGoto (pc : MainPc) :
    (s.mainGoto pc).place = Function.update s.place .main pc.place := by
  funext u
  cases u <;> simp [Server.place, Server.mainGoto]

private theorem place_threadGoto (pc : ThreadPc) :
    (s.threadGoto i pc).place = Function.update s.place (.service i) (pc.place i) := by
  funext u
  cases u with
  | main => simp [Server.place, Server.threadGoto]
  | service j =>
    by_cases hj : j = i
    · subst hj
      simp [Server.place, Server.threadGoto]
    · simp [Server.place, Server.threadGoto, hj]

private theorem guards_mainGoto (h : Guards s.mutex s.place) {old pc : MainPc}
    (hat : s.mainAt = old) (hplace : pc.place = (old.place : Option (Mutex n))) :
    Guards s.mutex (s.mainGoto pc).place := by
  rw [place_mainGoto, hplace, ← hat]
  exact (Function.update_eq_self Thread.main s.place).symm ▸ h

private theorem guards_threadGoto (h : Guards s.mutex s.place) {old pc : ThreadPc}
    (hat : s.threadAt i = old) (hplace : pc.place i = old.place i) :
    Guards s.mutex (s.threadGoto i pc).place := by
  rw [place_threadGoto, hplace, ← hat]
  exact (Function.update_eq_self (Thread.service i) s.place).symm ▸ h

private theorem threadKnows_update {conn : ℕ → Conn} {contents dequeued : List ℕ}
    {threadAt : Fin n → ThreadPc} {pc : ThreadPc}
    (hother : ∀ j, j ≠ i → (threadAt j).Knows conn contents dequeued)
    (hpc : pc.Knows conn contents dequeued) (j : Fin n) :
    (Function.update threadAt i pc j).Knows conn contents dequeued :=
  (Function.forall_update_iff threadAt fun _ pc => pc.Knows conn contents dequeued).mpr
    ⟨hpc, hother⟩ j

private theorem threadConn_goto (pc : ThreadPc) :
    (s.threadGoto i pc).threadConn = Function.update s.threadConn i pc.conn := by
  funext j
  by_cases hj : j = i
  · subst hj
    simp [Server.threadConn, Server.threadGoto]
  · simp [Server.threadConn, Server.threadGoto, hj]

private theorem custody_mainGoto
    (h : Custody owner s.mainAt.conn s.threadConn s.contents s.next) {old pc : MainPc}
    (hat : s.mainAt = old) (hconn : pc.conn = old.conn) :
    Custody owner pc.conn s.threadConn s.contents s.next := by
  rwa [hconn, ← hat]

private theorem custody_threadGoto
    (h : Custody owner s.mainAt.conn s.threadConn s.contents s.next) {old pc : ThreadPc}
    (hat : s.threadAt i = old) (hconn : pc.conn = old.conn) :
    Custody owner s.mainAt.conn (s.threadGoto i pc).threadConn s.contents s.next := by
  rw [threadConn_goto, hconn, ← hat]
  exact (Function.update_eq_self i s.threadConn).symm ▸ h

private theorem owed_mainGoto {old pc : MainPc} (hat : s.mainAt = old)
    (howed : pc.owed = old.owed) : (s.mainGoto pc).owed = s.owed := by
  subst hat
  simp only [Server.owed, Server.mainGoto]
  split <;> simp [howed]

private theorem owed_threadGoto {old pc : ThreadPc} (hat : s.threadAt i = old)
    (howed : pc.owed = old.owed) : (s.threadGoto i pc).owed = s.owed := by
  subst hat
  simp only [Server.owed, Server.threadGoto]
  split
  · rfl
  · rfl
  · rename_i j _
    by_cases hj : j = i
    · subst hj
      simp [howed]
    · simp [hj]

namespace Sound

theorem initServers : Sound (fun _ => none) (initServers n) where
  guards := by
    have hplace : (ClientQueue.initServers n).place = fun _ => none := by
      funext u
      cases u <;> rfl
    exact hplace ▸ Guards.free
  ring := Ring.nil (Nat.zero_lt_succ 9)
  rear := rfl
  count := rfl
  mainKnows := trivial
  threadKnows _ := trivial
  custody := Custody.start
  records := Records.start
  history := rfl

private theorem count_mainGoto (h : Sound owner s) {old pc : MainPc} (hat : s.mainAt = old)
    (howed : pc.owed = old.owed) : s.queueCount + (s.mainGoto pc).owed = s.contents.length := by
  rw [owed_mainGoto hat howed]
  exact h.count

private theorem count_threadGoto (h : Sound owner s) {old pc : ThreadPc}
    (hat : s.threadAt i = old) (howed : pc.owed = old.owed) :
    s.queueCount + (s.threadGoto i pc).owed = s.contents.length := by
  rw [owed_threadGoto hat howed]
  exact h.count

/-- A move of the main thread that takes or gives away nothing. -/
theorem mainGoto (h : Sound owner s) {old pc : MainPc} (hat : s.mainAt = old)
    (hplace : pc.place = (old.place : Option (Mutex n))) (hconn : pc.conn = old.conn)
    (howed : pc.owed = old.owed) (hknows : pc.Knows s) : Sound owner (s.mainGoto pc) :=
  { h with
    guards := guards_mainGoto h.guards hat hplace
    count := h.count_mainGoto hat howed
    mainKnows := hknows.congr (fun _ _ => .of_eq rfl) fun _ => ⟨rfl, rfl⟩
    custody := custody_mainGoto h.custody hat hconn }

/-- A move of a service thread that takes or gives away nothing. -/
theorem threadGoto (h : Sound owner s) {old pc : ThreadPc} (hat : s.threadAt i = old)
    (hplace : pc.place i = old.place i) (hconn : pc.conn = old.conn)
    (howed : pc.owed = old.owed) (hknows : pc.Knows s.conn s.contents s.dequeued) :
    Sound owner (s.threadGoto i pc) :=
  { h with
    guards := guards_threadGoto h.guards hat hplace
    count := h.count_threadGoto hat howed
    mainKnows := h.mainKnows.congr (fun _ _ => .of_eq rfl) fun _ => ⟨rfl, rfl⟩
    threadKnows := threadKnows_update (fun j _ => h.threadKnows j) hknows
    custody := custody_threadGoto h.custody hat hconn }

/-! ### Taking and giving back a mutex -/

private theorem owed_of_free (hfree : s.mutex .queue = none) : s.owed = 0 := by
  rw [Server.owed, hfree]

private theorem owed_of_main (hmutex : s.mutex .queue = some .main) : s.owed = s.mainAt.owed := by
  rw [Server.owed, hmutex]

private theorem owed_of_service (hmutex : s.mutex .queue = some (.service i)) :
    s.owed = (s.threadAt i).owed := by
  rw [Server.owed, hmutex]

theorem holder_main (h : Sound owner s) {pc : MainPc} (hat : s.mainAt = pc)
    (hin : pc.place = some (Mutex.queue : Mutex n)) : s.mutex .queue = some .main :=
  h.guards.holder (show s.place .main = _ by rw [Server.place, hat, hin])

theorem holder_service (h : Sound owner s) {pc : ThreadPc} {m : Mutex n}
    (hat : s.threadAt i = pc) (hin : pc.place i = some m) : s.mutex m = some (.service i) :=
  h.guards.holder (show s.place (.service i) = _ by rw [Server.place, hat, hin])

/-- Counter and queue agree unless the thread in the critical section owes. -/
theorem count_of_owed (h : Sound owner s) (howed : s.owed = 0) :
    s.queueCount = s.contents.length := by
  have hcount := h.count
  rwa [howed, add_zero] at hcount

theorem mainLock (h : Sound owner s) (hat : s.mainAt = .enqueue k it .lock)
    (hfree : s.mutex .queue = none) :
    Sound owner ((s.lock .queue .main).mainGoto (.enqueue k it .test)) := by
  have hknows := h.mainKnows
  rw [hat] at hknows
  have hcount := h.count_of_owed (owed_of_free hfree)
  exact { h with
    guards := by
      rw [place_mainGoto]
      exact h.guards.lock hfree (show s.place .main = none by rw [Server.place, hat]; rfl)
    count := by
      rw [owed_of_main (by simp [Server.mainGoto, Server.lock])]
      exact (add_zero _).trans hcount
    mainKnows := hknows
    custody := custody_mainGoto h.custody hat rfl }

theorem mainUnlock (h : Sound owner s) (hat : s.mainAt = .unlock) :
    Sound owner ((s.unlock .queue).mainGoto .accept) := by
  have hmutex := h.holder_main hat rfl
  have hcount := h.count_of_owed (by rw [owed_of_main hmutex, hat]; rfl)
  exact { h with
    guards := by
      rw [place_mainGoto]
      exact h.guards.unlock (show s.place .main = some .queue by rw [Server.place, hat]; rfl)
    count := by
      rw [owed_of_free (by simp [Server.mainGoto, Server.unlock])]
      exact (add_zero _).trans hcount
    mainKnows := trivial
    custody := custody_mainGoto h.custody hat rfl }

theorem threadLock (h : Sound owner s) {old pc : ThreadPc} {m : Mutex n}
    (hat : s.threadAt i = old) (hfree : s.mutex m = none) (hout : old.place i = none)
    (hin : pc.place i = some m) (hconn : pc.conn = old.conn) (hold : old.owed = 0)
    (hnew : pc.owed = 0) (hknows : pc.Knows s.conn s.contents s.dequeued) :
    Sound owner ((s.lock m (.service i)).threadGoto i pc) :=
  { h with
    guards := by
      rw [place_threadGoto, hin]
      exact h.guards.lock hfree
        (show s.place (.service i) = none by rw [Server.place, hat, hout])
    count := by
      have hlocked : ((s.lock m (.service i)).threadGoto i pc).owed = s.owed := by
        cases m with
        | queue =>
          rw [owed_of_free hfree,
            @owed_of_service _ _ i (by simp [Server.threadGoto, Server.lock])]
          simpa [Server.threadGoto] using hnew
        | server j =>
          rw [@owed_threadGoto _ (s.lock (.server j) (.service i)) i _ pc hat
            (hnew.trans hold.symm)]
          simp [Server.owed, Server.lock]
      rw [hlocked]
      exact h.count
    mainKnows := h.mainKnows.congr (fun _ _ => .of_eq rfl) fun _ => ⟨rfl, rfl⟩
    threadKnows := threadKnows_update (fun j _ => h.threadKnows j) hknows
    custody := custody_threadGoto h.custody hat hconn }

theorem threadUnlock (h : Sound owner s) {old pc : ThreadPc} {m : Mutex n}
    (hat : s.threadAt i = old) (hin : old.place i = some m) (hout : pc.place i = none)
    (hconn : pc.conn = old.conn) (hold : old.owed = 0) (hnew : pc.owed = 0)
    (hknows : pc.Knows s.conn s.contents s.dequeued) :
    Sound owner ((s.unlock m).threadGoto i pc) :=
  { h with
    guards := by
      rw [place_threadGoto, hout]
      exact h.guards.unlock
        (show s.place (.service i) = some m by rw [Server.place, hat, hin])
    count := by
      have hunlocked : ((s.unlock m).threadGoto i pc).owed = s.owed := by
        cases m with
        | queue =>
          rw [owed_of_service (h.holder_service hat hin), hat, hold,
            owed_of_free (by simp [Server.threadGoto, Server.unlock])]
        | server j =>
          rw [@owed_threadGoto _ (s.unlock (.server j)) i _ pc hat (hnew.trans hold.symm)]
          simp [Server.owed, Server.unlock]
      rw [hunlocked]
      exact h.count
    mainKnows := h.mainKnows.congr (fun _ _ => .of_eq rfl) fun _ => ⟨rfl, rfl⟩
    threadKnows := threadKnows_update (fun j _ => h.threadKnows j) hknows
    custody := custody_threadGoto h.custody hat hconn }

/-- The busy flags belong to the service threads. -/
theorem setBusy (h : Sound owner s) (i : Fin n) (b : Bool) : Sound owner (s.setBusy i b) :=
  ⟨h.guards, h.ring, h.rear, h.count,
    h.mainKnows.congr (fun _ _ => .of_eq rfl) fun _ => ⟨rfl, rfl⟩, h.threadKnows, h.custody,
    h.records, h.history⟩

/-- The buffer of `ctime` and the end of the process do not concern the queue. -/
theorem setOutside (h : Sound owner s) (timeText : CString) (killed : Bool) :
    Sound owner { s with timeText, killed } :=
  ⟨h.guards, h.ring, h.rear, h.count,
    h.mainKnows.congr (fun _ _ => .of_eq rfl) fun _ => ⟨rfl, rfl⟩, h.threadKnows, h.custody,
    h.records, h.history⟩

/-! ### The two ends of the queue -/

private theorem length_items : s.items.length = s.contents.length := List.length_map _

/-- Nobody else is in the critical section with the main thread. -/
private theorem place_service_ne (h : Sound owner s) {pc : MainPc} (hat : s.mainAt = pc)
    (hin : pc.place = some (Mutex.queue : Mutex n)) (j : Fin n) :
    (s.threadAt j).place j ≠ some .queue := by
  intro hj
  have heq := h.guards.unique (show s.place (.service j) = some .queue from hj)
    (show s.place .main = some .queue by rw [Server.place, hat, hin])
  cases heq

/-- Nobody else is in the critical section with a service thread. -/
private theorem place_other_ne (h : Sound owner s) {pc : ThreadPc} (hat : s.threadAt i = pc)
    (hin : pc.place i = some .queue) {j : Fin n} (hj : j ≠ i) :
    (s.threadAt j).place j ≠ some .queue := by
  intro hjin
  have heq := h.guards.unique (show s.place (.service j) = some .queue from hjin)
    (show s.place (.service i) = some .queue by rw [Server.place, hat, hin])
  exact hj (Thread.service.inj heq)

private theorem place_main_ne (h : Sound owner s) {pc : ThreadPc} (hat : s.threadAt i = pc)
    (hin : pc.place i = some .queue) : s.mainAt.place ≠ some (Mutex.queue : Mutex n) := by
  intro hmain
  have heq := h.guards.unique (show s.place .main = some .queue from hmain)
    (show s.place (.service i) = some .queue by rw [Server.place, hat, hin])
  cases heq

/-- The main thread fills in a field of the free cell. -/
theorem writeRear (h : Sound owner s) {pc : EnqueuePc} (pc' : EnqueuePc)
    (hat : s.mainAt = .enqueue k it pc)
    (hplace : MainPc.place (.enqueue k it pc') =
      (MainPc.place (.enqueue k it pc) : Option (Mutex n)))
    (hroom : s.contents.length < queueSize) (x : Item)
    (hknows : pc'.Knows (s.setRear x) k it) :
    Sound owner ((s.setRear x).mainGoto (.enqueue k it pc')) := by
  have hring := h.ring.write (by rwa [length_items]) x
  rw [length_items, ← h.rear] at hring
  have hmain := h.mainKnows
  rw [hat] at hmain
  exact { h with
    guards := guards_mainGoto h.guards hat hplace
    ring := hring
    count := h.count_mainGoto hat rfl
    mainKnows := ⟨hmain.1, by cases pc' <;> exact hknows⟩
    custody := custody_mainGoto h.custody hat rfl }

/-- The move of the rear puts the client into the queue. -/
theorem enqueue (h : Sound owner s) (hat : s.mainAt = .enqueue k it .advance) :
    Sound (Function.update owner k (some .queue)) { s with
      mainAt := .increment
      queueRear := (s.queueRear + 1) % queueSize
      contents := s.contents ++ [k]
      accepted := s.accepted ++ [k] } := by
  have hknows := h.mainKnows
  rw [hat] at hknows
  obtain ⟨hitem, hfresh, hroom, hcell⟩ := hknows
  have hcustody := h.custody
  rw [hat] at hcustody
  have hmutex := h.holder_main hat rfl
  have hcount := h.count_of_owed (by rw [owed_of_main hmutex, hat]; rfl)
  refine { h with
    guards := guards_mainGoto h.guards hat rfl
    ring := ?_
    rear := ?_
    count := ?_
    mainKnows := trivial
    threadKnows := fun j => (h.threadKnows j).congr (fun _ _ => .of_eq rfl)
      (fun hj => absurd hj (h.place_service_ne hat rfl j)) fun _ => id
    custody := hcustody.toQueue
    records := h.records.toQueue ((hcustody.main_iff k).mp rfl) hfresh
    history := ?_ }
  · have hpush := h.ring.push (by rwa [length_items])
      (show s.clientQueue ((s.queueFront + s.items.length) % queueSize) = it by
        rw [length_items, ← h.rear]; exact hcell)
    simpa [Server.items, hitem] using hpush
  · simp only [h.rear, List.length_append, List.length_singleton, Nat.mod_add_mod,
      Nat.add_assoc]
  · rw [owed_of_main (by exact hmutex)]
    simp only [MainPc.owed, List.length_append, List.length_singleton]
    omega
  · simp only [h.history, List.append_assoc]

/-- The counter follows the rear. -/
theorem increment (h : Sound owner s) (hat : s.mainAt = .increment) :
    Sound owner { s with mainAt := .signal, queueCount := s.queueCount + 1 } := by
  have hmutex := h.holder_main hat rfl
  have hcount := h.count
  rw [owed_of_main hmutex, hat] at hcount
  refine { h with
    guards := guards_mainGoto h.guards hat rfl
    count := ?_
    mainKnows := trivial
    custody := custody_mainGoto h.custody hat rfl }
  rw [owed_of_main (by exact hmutex)]
  simp only [MainPc.owed] at hcount ⊢
  omega

/-- The move of the front gives the first client to the service thread. -/
theorem dequeue (h : Sound owner s) (hat : s.threadAt i = .advance it) :
    Sound (Function.update owner (s.contents.headD 0) (some (.thread i))) { s with
      threadAt := Function.update s.threadAt i (.holding (s.contents.headD 0) it .decrement)
      queueFront := (s.queueFront + 1) % queueSize
      contents := s.contents.tail
      dequeued := s.dequeued ++ s.contents.take 1 } := by
  have hknows := h.threadKnows i
  rw [hat] at hknows
  obtain ⟨k, hhead, hitem⟩ := hknows
  obtain ⟨rest, hcontents⟩ := List.head?_eq_some_iff.mp hhead
  have hcustody := h.custody
  rw [hcontents] at hcustody
  have howner : owner k = some .queue := (hcustody.queue_iff k).mp List.mem_cons_self
  have hmutex := h.holder_service hat rfl
  have hcount := h.count_of_owed (by rw [owed_of_service hmutex, hat]; rfl)
  rw [hcontents, List.length_cons] at hcount
  have hthread : s.threadConn i = none := by rw [Server.threadConn, hat]; rfl
  simp only [hcontents, List.headD_cons, List.tail_cons, List.take_succ_cons, List.take_zero]
  refine { h with
    guards := guards_threadGoto h.guards hat rfl
    ring := ?_
    rear := ?_
    count := ?_
    mainKnows := h.mainKnows.congr (fun _ _ => .of_eq rfl)
      (fun hmain => absurd hmain (h.place_main_ne hat rfl))
    threadKnows := threadKnows_update (fun j hj => (h.threadKnows j).congr (fun _ _ => .of_eq rfl)
      (fun hjin => absurd hjin (h.place_other_ne hat rfl hj))
      fun _ => List.mem_append_left _) ⟨hitem, by simp, h.records.waiting k howner⟩
    custody := ?_
    records := h.records.toThread howner
    history := ?_ }
  · have hring := h.ring
    rw [Server.items, hcontents] at hring
    exact hring.pop
  · simp only [h.rear, hcontents, List.length_cons, Nat.mod_add_mod, Nat.add_right_comm,
      Nat.add_assoc]
  · rw [@owed_of_service _ _ i (by exact hmutex)]
    simp only [Function.update_self, ThreadPc.owed]
    omega
  · have hmoved := hcustody.toThread hthread
    rw [← show (ThreadPc.holding k it .decrement).conn = some k from rfl,
      ← threadConn_goto] at hmoved
    exact hmoved
  · simp only [h.history, hcontents, List.append_assoc, List.singleton_append]

/-- The counter follows the front. -/
theorem decrement (h : Sound owner s) (hat : s.threadAt i = .holding k it .decrement) :
    Sound owner { s with
      threadAt := Function.update s.threadAt i (.holding k it .unlock)
      queueCount := s.queueCount - 1 } := by
  have hmutex := h.holder_service hat rfl
  have hcount := h.count
  rw [owed_of_service hmutex, hat] at hcount
  have hknows := h.threadKnows i
  rw [hat] at hknows
  refine { h with
    guards := guards_threadGoto h.guards hat rfl
    count := ?_
    mainKnows := h.mainKnows.congr (fun _ _ => .of_eq rfl) fun _ => ⟨rfl, rfl⟩
    threadKnows := threadKnows_update (fun j _ => h.threadKnows j) hknows
    custody := custody_threadGoto h.custody hat rfl }
  rw [@owed_of_service _ _ i (by exact hmutex)]
  simp only [Function.update_self, ThreadPc.owed] at hcount ⊢
  omega

/-! ### Connections -/

/-- The items in the queue are those of other connections. -/
private theorem items_setConn (h : Sound owner s) (hqueue : owner k ≠ some .queue) (x : Conn) :
    (s.setConn k x).items = s.items := by
  refine List.map_congr_left fun k' hk' => ?_
  have hk : k' ≠ k := by
    rintro rfl
    exact hqueue ((h.custody.queue_iff k').mp hk')
  simp [Server.setConn, hk]

private theorem conn_setConn {k' : ℕ} (x : Conn) (hk : k' ≠ k) :
    (s.setConn k x).conn k' = s.conn k' :=
  Function.update_of_ne hk _ _

/-- What service threads know does not concern a connection neither the queue nor
they have. -/
private theorem threadKnows_setConn (h : Sound owner s) (hqueue : owner k ≠ some .queue)
    {j : Fin n} (hj : owner k ≠ some (.thread j)) (x : Conn) :
    (s.threadAt j).Knows (s.setConn k x).conn s.contents s.dequeued := by
  have hmine : ∀ k', (s.threadAt j).conn = some k' → k' ≠ k := by
    rintro k' hk' rfl
    exact hj ((h.custody.thread_iff j k').mp hk')
  have hfirst : ∀ k', s.contents.head? = some k' → k' ≠ k := by
    rintro k' hk' rfl
    exact hqueue ((h.custody.queue_iff k').mp (List.mem_of_mem_head? hk'))
  exact (h.threadKnows j).congr (i := j) (fun k' hk' => .of_eq (conn_setConn x (hmine k' hk')))
    (fun _ _ k' hk' => ⟨hk', by rw [conn_setConn x (hfirst k' hk')]⟩) fun _ => id

/-- Something is read from or sent to the connection of the main thread. -/
theorem mainSetConn (h : Sound owner s) {pc pc' : MainPc} {x : Conn} (hat : s.mainAt = pc)
    (hk : pc.conn = some k) (hconn : pc'.conn = pc.conn)
    (hplace : pc'.place = (pc.place : Option (Mutex n))) (howed : pc'.owed = pc.owed)
    (hfd : x.item.clientFd = (s.conn k).item.clientFd) (hcloses : x.closes = (s.conn k).closes)
    (hknows : pc'.Knows (s.setConn k x)) : Sound owner ((s.setConn k x).mainGoto pc') := by
  have howner : owner k = some .main := (h.custody.main_iff k).mp (by rw [hat, hk])
  have hqueue : owner k ≠ some .queue := by simp [howner]
  exact { h with
    guards := guards_mainGoto h.guards hat hplace
    ring := (h.items_setConn hqueue x).symm ▸ h.ring
    count := h.count_mainGoto hat howed
    mainKnows := hknows.congr (fun _ _ => .of_eq rfl) fun _ => ⟨rfl, rfl⟩
    threadKnows := fun j => h.threadKnows_setConn hqueue (by simp [howner]) x
    custody := custody_mainGoto h.custody hat hconn
    records := h.records.setConn hqueue (by simp [howner]) hfd hcloses }

/-- A client is accepted on a free descriptor. -/
theorem accept (h : Sound owner s) (hat : s.mainAt = .accept) {fd : ℕ} (addr : Addr)
    (hfree : s.openFd fd = none) :
    Sound (Function.update owner s.next (some .main))
      { s.setConn s.next (.accepted fd addr) with
        next := s.next + 1
        openFd := Function.update s.openFd fd (some s.next)
        mainAt := .read s.next fd addr } := by
  have hnone : owner s.next = none := by
    by_contra hne
    exact absurd ((h.custody.arrived_iff s.next).mpr hne) (Nat.lt_irrefl _)
  have hcustody := h.custody
  rw [hat] at hcustody
  have hqueue : owner s.next ≠ some .queue := by simp [hnone]
  exact { h with
    guards := guards_mainGoto h.guards hat rfl
    ring := (h.items_setConn hqueue _).symm ▸ h.ring
    count := h.count_mainGoto hat rfl
    mainKnows := by simp [MainPc.Knows, Server.setConn, Conn.accepted, Conn.Fresh]
    threadKnows := fun j => h.threadKnows_setConn hqueue (by simp [hnone]) _
    custody := hcustody.arrive
    records := h.records.arrive hnone hfree }

/-- The message of the client is read. -/
theorem read (h : Sound owner s) {fd : ℕ} {addr : Addr} (hat : s.mainAt = .read k fd addr)
    (message : CString) :
    Sound owner ((s.setConn k { s.conn k with item := ⟨fd, addr, message⟩ }).mainGoto
      (.enqueue k ⟨fd, addr, message⟩ .lock)) := by
  have hknows := h.mainKnows
  rw [hat] at hknows
  obtain ⟨hfd, hfresh⟩ := hknows
  refine h.mainSetConn hat rfl rfl rfl rfl hfd.symm rfl ⟨?_, ?_⟩
  · simp [Server.setConn]
  · simpa [EnqueuePc.Knows, Server.setConn, Conn.Fresh] using hfresh

/-- The descriptor in the item of a connection somebody has leads to it. -/
theorem openFd_eq (h : Sound owner s) {o : Owner n} (howner : owner k = some o)
    (ho : o ≠ .closed) (hit : (s.conn k).item = it) : s.openFd it.clientFd = some k := by
  have hopen := h.records.openFd_of_owner howner ho
  rwa [hit] at hopen

/-- The main thread tells its client that the queue is full, if that is still there. -/
theorem sendFull (h : Sound owner s) (hat : s.mainAt = .enqueue k it .sendFull) :
    Sound owner ((s.send it.clientFd errorQueueFull).mainGoto (.enqueue k it .closeFull)) := by
  have hknows := h.mainKnows
  rw [hat] at hknows
  obtain ⟨hit, hreplies, htime⟩ := hknows
  have hopen := h.openFd_eq ((h.custody.main_iff k).mp (by rw [hat]; rfl)) (by simp) hit
  by_cases hbroken : (s.conn k).broken = none
  · rw [Server.send_eq hopen hbroken]
    refine h.mainSetConn hat rfl rfl rfl rfl rfl rfl ⟨?_, .inr ?_⟩
    · simpa [Server.setConn] using hit
    · simp [Server.setConn, hreplies, htime]
  · obtain ⟨killed, hsend⟩ := Server.exists_send_eq errorQueueFull hopen hbroken
    rw [hsend]
    exact (h.setOutside s.timeText killed).mainGoto hat rfl rfl rfl
      ⟨hit, .inl ⟨hbroken, hreplies⟩⟩

/-- The main thread closes the connection it refused. -/
theorem closeFull (h : Sound owner s) (hat : s.mainAt = .enqueue k it .closeFull) :
    Sound (Function.update owner k (some .closed)) ((s.close it.clientFd).mainGoto .unlock) := by
  have hknows := h.mainKnows
  rw [hat] at hknows
  obtain ⟨hit, hfull⟩ := hknows
  have hcustody := h.custody
  rw [hat] at hcustody
  have howner : owner k = some .main := (hcustody.main_iff k).mp rfl
  have hqueue : owner k ≠ some .queue := by simp [howner]
  have hrefused : k ∉ s.accepted := fun hk => (h.records.entered k hk).2 howner
  rw [Server.close_eq (h.openFd_eq howner (by simp) hit), ← hit]
  exact { h with
    guards := guards_mainGoto h.guards hat rfl
    ring := (h.items_setConn hqueue _).symm ▸ h.ring
    count := h.count_mainGoto hat rfl
    mainKnows := trivial
    threadKnows := fun j => h.threadKnows_setConn hqueue (by simp [howner]) _
    custody := hcustody.refuse
    records := h.records.close howner (by simp) (Or.inl ⟨hrefused, hfull⟩) }

/-- The main thread and the other service threads know what they knew when
something happens to the connection of thread `i`. -/
private theorem knows_setConn (h : Sound owner s) (howner : owner k = some (.thread i))
    (x : Conn) : s.mainAt.Knows (s.setConn k x) ∧
      ∀ j, j ≠ i → (s.threadAt j).Knows (s.setConn k x).conn s.contents s.dequeued := by
  refine ⟨h.mainKnows.congr (fun k' hk' => .of_eq (conn_setConn x ?_)) fun _ => ⟨rfl, rfl⟩,
    fun j hj => h.threadKnows_setConn (by simp [howner]) ?_ x⟩
  · rintro rfl
    simp [(h.custody.main_iff k').mp hk'] at howner
  · simpa [howner] using Ne.symm hj

/-- Something happens to the connection of a service thread. -/
theorem threadSetConn (h : Sound owner s) {pc pc' : HoldPc} {x : Conn}
    (hat : s.threadAt i = .holding k it pc)
    (hplace : (ThreadPc.holding k it pc').place i = (ThreadPc.holding k it pc).place i)
    (howed : (ThreadPc.holding k it pc').owed = (ThreadPc.holding k it pc).owed)
    (hitem : x.item = (s.conn k).item) (hcloses : x.closes = (s.conn k).closes)
    (hknows : pc'.Knows x) :
    Sound owner ((s.setConn k x).threadGoto i (.holding k it pc')) := by
  have hheld := h.threadKnows i
  rw [hat] at hheld
  obtain ⟨hit, hdequeued, -⟩ := hheld
  have howner : owner k = some (.thread i) :=
    (h.custody.thread_iff i k).mp (by rw [Server.threadConn, hat]; rfl)
  have hqueue : owner k ≠ some .queue := by simp [howner]
  obtain ⟨hmain, hother⟩ := h.knows_setConn howner x
  have hself : ((s.setConn k x).threadGoto i (.holding k it pc')).conn k = x :=
    Function.update_self ..
  exact { h with
    guards := guards_threadGoto h.guards hat hplace
    ring := (h.items_setConn hqueue _).symm ▸ h.ring
    count := h.count_threadGoto hat howed
    mainKnows := hmain.congr (fun _ _ => .of_eq rfl) fun _ => ⟨rfl, rfl⟩
    threadKnows := threadKnows_update hother
      ⟨by rw [hself, hitem]; exact hit, hdequeued, by rw [hself]; exact hknows⟩
    custody := custody_threadGoto h.custody hat rfl
    records := h.records.setConn hqueue (by simp [howner]) (by rw [hitem]) hcloses }

/-- A service thread looks at the message. -/
theorem compare (h : Sound owner s) (hat : s.threadAt i = .holding k it .compare) :
    Sound owner (s.threadGoto i
      (.holding k it (if isTime it.message then .ctime else .sendError))) := by
  have hknows := h.threadKnows i
  rw [hat] at hknows
  obtain ⟨hit, hdequeued, hfresh⟩ := hknows
  by_cases htime : isTime it.message = true
  · rw [if_pos htime]
    exact h.threadGoto hat rfl rfl rfl ⟨hit, hdequeued, hit ▸ isTime_iff.mp htime, hfresh⟩
  · rw [if_neg htime]
    exact h.threadGoto hat rfl rfl rfl ⟨hit, hdequeued, hit ▸ mt isTime_iff.mpr htime, hfresh⟩

/-- `ctime` is called for the client. -/
theorem ctime (h : Sound owner s) (hat : s.threadAt i = .holding k it .ctime) (now : CString) :
    Sound owner { (s.setConn k { s.conn k with time := some now }).threadGoto i
        (.holding k it .sendTime) with
      timeText := now } := by
  have hknows := h.threadKnows i
  rw [hat] at hknows
  obtain ⟨-, -, hasks, hfresh⟩ := hknows
  have hset : Sound owner ((s.setConn k { s.conn k with time := some now }).threadGoto i
      (.holding k it .sendTime)) :=
    h.threadSetConn hat rfl rfl rfl rfl ⟨hasks, ⟨now, rfl⟩, hfresh.1⟩
  exact hset.setOutside now s.killed

/-- A service thread replies to the client it has, if that is still there. -/
theorem threadSend (h : Sound owner s) {pc : HoldPc} (hat : s.threadAt i = .holding k it pc)
    (hplace : (ThreadPc.holding k it pc).place i = none)
    (howed : (ThreadPc.holding k it pc).owed = 0) (hreplies : (s.conn k).replies = [])
    (text : CString)
    (hserved : ({ s.conn k with replies := [text] } : Conn).Served) :
    Sound owner ((s.send it.clientFd text).threadGoto i (.holding k it .close)) := by
  have hknows := h.threadKnows i
  rw [hat] at hknows
  obtain ⟨hit, hdequeued, -⟩ := hknows
  have howner : owner k = some (.thread i) :=
    (h.custody.thread_iff i k).mp (by rw [Server.threadConn, hat]; rfl)
  have hopen := h.openFd_eq howner (by simp) hit.symm
  by_cases hbroken : (s.conn k).broken = none
  · rw [Server.send_eq hopen hbroken, hreplies]
    exact h.threadSetConn hat hplace.symm howed.symm rfl rfl hserved
  · obtain ⟨killed, hsend⟩ := Server.exists_send_eq text hopen hbroken
    rw [hsend]
    exact (h.setOutside s.timeText killed).threadGoto hat hplace.symm rfl howed.symm
      ⟨hit, hdequeued, .inl ⟨hbroken, hreplies⟩⟩

/-- A service thread closes the connection of the client it has answered. -/
theorem finish (h : Sound owner s) (hat : s.threadAt i = .holding k it .close) :
    Sound (Function.update owner k (some .closed))
      ((s.close it.clientFd).threadGoto i .releaseLock) := by
  have hknows := h.threadKnows i
  rw [hat] at hknows
  obtain ⟨hit, hdequeued, hserved⟩ := hknows
  have hthread : s.threadConn i = some k := by rw [Server.threadConn, hat]; rfl
  have howner : owner k = some (.thread i) := (h.custody.thread_iff i k).mp hthread
  have hqueue : owner k ≠ some .queue := by simp [howner]
  rw [Server.close_eq (h.openFd_eq howner (by simp) hit.symm), hit]
  obtain ⟨hmain, hother⟩ := h.knows_setConn howner
    { s.conn k with closes := (s.conn k).closes + 1 }
  refine { h with
    guards := guards_threadGoto h.guards hat rfl
    ring := (h.items_setConn hqueue _).symm ▸ h.ring
    count := h.count_threadGoto hat rfl
    mainKnows := hmain.congr (fun _ _ => .of_eq rfl) fun _ => ⟨rfl, rfl⟩
    threadKnows := threadKnows_update hother trivial
    custody := ?_
    records := h.records.close howner (by simp) (Or.inr ⟨hdequeued, hserved⟩) }
  have hdone := h.custody.finish hthread
  rw [← show ThreadPc.releaseLock.conn = none from rfl, ← threadConn_goto] at hdone
  exact hdone

/-- Sleeping threads are woken by a signal. -/
theorem signal (h : Sound owner s) {woken : List (Fin n)} (hat : s.mainAt = .signal)
    (hasleep : ∀ i ∈ woken, s.threadAt i = .asleep) :
    Sound owner { s with
      mainAt := .unlock
      threadAt := fun i => if i ∈ woken then .lock else s.threadAt i } := by
  have hmutex := h.holder_main hat rfl
  have hcount := h.count_of_owed (by rw [owed_of_main hmutex, hat]; rfl)
  have hthread : ∀ {α : Type} (f : Fin n → ThreadPc → α), (∀ i, f i .lock = f i .asleep) →
      ∀ i, f i (if i ∈ woken then .lock else s.threadAt i) = f i (s.threadAt i) := by
    intro α f hf i
    split
    · rename_i hi
      rw [hf, hasleep i hi]
    · rfl
  have hplace : Server.place { s with
      mainAt := .unlock
      threadAt := fun i => if i ∈ woken then .lock else s.threadAt i } = s.place := by
    funext u
    cases u with
    | main => simp [Server.place, hat, MainPc.place]
    | service i => exact hthread ThreadPc.place (fun _ => rfl) i
  have hconn : Server.threadConn { s with
      mainAt := .unlock
      threadAt := fun i => if i ∈ woken then .lock else s.threadAt i } = s.threadConn :=
    funext (hthread (fun _ => ThreadPc.conn) fun _ => rfl)
  refine { h with
    guards := hplace.symm ▸ h.guards
    count := ?_
    mainKnows := trivial
    threadKnows := fun i => ?_
    custody := hconn.symm ▸ custody_mainGoto h.custody hat rfl }
  · rw [owed_of_main (by exact hmutex)]
    exact (add_zero _).trans hcount
  · dsimp only
    split
    · trivial
    · exact h.threadKnows i

/-- A client resets its connection. -/
theorem reset (h : Sound owner s) (k : ℕ) (broken : Broken) :
    Sound owner (s.setConn k { s.conn k with broken := some broken }) := by
  have hsame : ∀ k', (s.conn k').Same
      ((s.setConn k { s.conn k with broken := some broken }).conn k') := by
    intro k'
    by_cases hk : k' = k
    · subst hk; simp [Server.setConn, Conn.Same.mk]
    · exact .of_eq (conn_setConn _ hk)
  have hitems : (s.setConn k { s.conn k with broken := some broken }).items = s.items :=
    List.map_congr_left fun k' _ => (hsame k').item
  exact { h with
    ring := hitems.symm ▸ h.ring
    mainKnows := h.mainKnows.congr (fun k' _ => hsame k') fun _ => ⟨rfl, rfl⟩
    threadKnows := fun j => (h.threadKnows j).congr (i := j) (fun k' _ => hsame k')
      (fun _ _ k' hk' => ⟨hk', (hsame k').item⟩) fun _ => id
    records := h.records.reset k broken }

/-! ### Every statement of every thread -/

private theorem enqueueClient (h : Sound owner s) {pc : EnqueuePc}
    (hat : s.mainAt = .enqueue k it pc) (hstep : enqueueClient s k it pc = some t) :
    ∃ owner', Sound owner' t := by
  have hknows := h.mainKnows
  rw [hat] at hknows
  obtain ⟨hit, hknows⟩ := hknows
  cases pc with
  | lock =>
    simp only [ClientQueue.enqueueClient] at hstep
    split at hstep
    · rename_i hfree
      exact ⟨owner, Option.some.inj hstep ▸ h.mainLock hat hfree⟩
    · cases hstep
  | test =>
    obtain rfl := Option.some.inj hstep
    have hcount := h.count_of_owed (by rw [owed_of_main (h.holder_main hat rfl), hat]; rfl)
    refine ⟨owner, ?_⟩
    split
    · rename_i hroom
      exact h.mainGoto hat rfl rfl rfl ⟨hit, hknows, by omega⟩
    · exact h.mainGoto hat rfl rfl rfl ⟨hit, hknows⟩
  | writeFd =>
    obtain rfl := Option.some.inj hstep
    obtain ⟨hreplies, hroom⟩ := hknows
    refine ⟨owner, h.writeRear .writeAddr hat rfl hroom _ ⟨hreplies, hroom, ?_⟩⟩
    simp [Server.rearCell, Server.setRear]
  | writeAddr =>
    obtain rfl := Option.some.inj hstep
    obtain ⟨hreplies, hroom, hfd⟩ := hknows
    refine ⟨owner, h.writeRear .writeMessage hat rfl hroom _ ⟨hreplies, hroom, ?_, ?_⟩⟩
    · simpa [Server.rearCell, Server.setRear] using hfd
    · simp [Server.rearCell, Server.setRear]
  | writeMessage =>
    obtain rfl := Option.some.inj hstep
    obtain ⟨hreplies, hroom, hfd, haddr⟩ := hknows
    refine ⟨owner, h.writeRear .advance hat rfl hroom _ ⟨hreplies, hroom, ?_⟩⟩
    simp [Server.rearCell, Server.setRear] at hfd haddr ⊢
    rw [hfd, haddr]
  | advance =>
    obtain rfl := Option.some.inj hstep
    exact ⟨_, h.enqueue hat⟩
  | sendFull =>
    obtain rfl := Option.some.inj hstep
    exact ⟨owner, h.sendFull hat⟩
  | closeFull =>
    obtain rfl := Option.some.inj hstep
    exact ⟨_, h.closeFull hat⟩

private theorem mainStep (h : Sound owner s) (hstep : mainStep s = some t) :
    ∃ owner', Sound owner' t := by
  unfold ClientQueue.mainStep at hstep
  split at hstep
  · rename_i hat
    exact h.enqueueClient hat hstep
  · rename_i hat
    exact ⟨owner, Option.some.inj hstep ▸ h.increment hat⟩
  · rename_i hat
    exact ⟨owner, Option.some.inj hstep ▸ h.mainUnlock hat⟩
  · cases hstep
  · cases hstep
  · cases hstep

private theorem hold (h : Sound owner s) {pc : HoldPc} {now : CString}
    (hat : s.threadAt i = .holding k it pc) (hstep : hold s i now k it pc = some t) :
    ∃ owner', Sound owner' t := by
  have hknows := h.threadKnows i
  rw [hat] at hknows
  cases pc with
  | decrement => exact ⟨owner, Option.some.inj hstep ▸ h.decrement hat⟩
  | unlock =>
    obtain rfl := Option.some.inj hstep
    exact ⟨owner, h.threadUnlock hat rfl rfl rfl rfl rfl hknows⟩
  | compare => exact ⟨owner, Option.some.inj hstep ▸ h.compare hat⟩
  | ctime => exact ⟨owner, Option.some.inj hstep ▸ h.ctime hat now⟩
  | sendTime =>
    obtain ⟨-, -, hasks, htime, hreplies⟩ := hknows
    obtain ⟨asked, hasked⟩ := htime
    exact ⟨owner, Option.some.inj hstep ▸ h.threadSend hat rfl rfl hreplies _
      (.inr (.inl ⟨hasks, asked, _, hasked, rfl⟩))⟩
  | sendError =>
    obtain ⟨-, -, hasks, hreplies, htime⟩ := hknows
    exact ⟨owner, Option.some.inj hstep ▸ h.threadSend hat rfl rfl hreplies _
      (.inr (.inr ⟨hasks, htime, rfl⟩))⟩
  | close => exact ⟨_, Option.some.inj hstep ▸ h.finish hat⟩

/-- The first client is at the front. -/
private theorem front (h : Sound owner s) (hhead : s.contents.head? = some k) :
    s.clientQueue s.queueFront = (s.conn k).item := by
  obtain ⟨rest, hcontents⟩ := List.head?_eq_some_iff.mp hhead
  have hring := h.ring
  rw [Server.items, hcontents] at hring
  exact hring.head

private theorem serviceServerThread (h : Sound owner s) {now : CString}
    (hstep : serviceServerThread s i now = some t) : ∃ owner', Sound owner' t := by
  have hknows := h.threadKnows i
  unfold ClientQueue.serviceServerThread at hstep
  cases hat : s.threadAt i with
  | serverLock =>
    simp only [hat] at hstep
    split at hstep
    · rename_i hfree
      exact ⟨owner, Option.some.inj hstep ▸
        h.threadLock hat hfree rfl rfl rfl rfl rfl trivial⟩
    · cases hstep
  | serverTest =>
    simp only [hat] at hstep
    split at hstep
    · exact ⟨owner, Option.some.inj hstep ▸
        h.threadUnlock hat rfl rfl rfl rfl rfl trivial⟩
    · exact ⟨owner, Option.some.inj hstep ▸ h.threadGoto hat rfl rfl rfl trivial⟩
  | serverAsleep => simp [hat] at hstep
  | serverSet =>
    simp only [hat, Option.some_inj] at hstep
    exact ⟨owner, hstep ▸ (h.setBusy i true).threadGoto hat rfl rfl rfl trivial⟩
  | serverUnlock =>
    simp only [hat, Option.some_inj] at hstep
    exact ⟨owner, hstep ▸ h.threadUnlock hat rfl rfl rfl rfl rfl trivial⟩
  | lock =>
    simp only [hat] at hstep
    split at hstep
    · rename_i hfree
      exact ⟨owner, Option.some.inj hstep ▸
        h.threadLock hat hfree rfl rfl rfl rfl rfl trivial⟩
    · cases hstep
  | test =>
    -- The thread has the mutex and owes the queue nothing, so `count` is its length and a
    -- nonzero count means a head to copy.
    have hcount := h.count_of_owed
      (by rw [owed_of_service (h.holder_service hat rfl), hat]; rfl)
    simp only [hat] at hstep
    split at hstep
    · exact ⟨owner, Option.some.inj hstep ▸
        h.threadUnlock hat rfl rfl rfl rfl rfl trivial⟩
    · rename_i hsome
      have hne : s.contents ≠ [] := by
        rintro hnil
        rw [hnil] at hcount
        exact hsome hcount
      exact ⟨owner, Option.some.inj hstep ▸
        h.threadGoto hat rfl rfl rfl ⟨_, List.head?_eq_some_head hne⟩⟩
  | asleep => simp [hat] at hstep
  | copyFd =>
    -- The mutex is held from here to `advance`, so the head cannot change between the three
    -- copies.
    rw [hat] at hknows
    obtain ⟨k, hk⟩ := hknows
    simp only [hat, Option.some_inj, h.front hk] at hstep
    exact ⟨owner, hstep ▸ h.threadGoto hat rfl rfl rfl ⟨k, hk, rfl⟩⟩
  | copyAddr fd =>
    rw [hat] at hknows
    obtain ⟨k, hk, hfd⟩ := hknows
    simp only [hat, Option.some_inj, h.front hk] at hstep
    exact ⟨owner, hstep ▸ h.threadGoto hat rfl rfl rfl ⟨k, hk, hfd, rfl⟩⟩
  | copyMessage fd addr =>
    rw [hat] at hknows
    obtain ⟨k, hk, hfd, haddr⟩ := hknows
    simp only [hat, Option.some_inj, h.front hk] at hstep
    exact ⟨owner, hstep ▸ h.threadGoto hat rfl rfl rfl ⟨k, hk, by rw [hfd, haddr]⟩⟩
  | advance it =>
    simp only [hat, Option.some_inj] at hstep
    exact ⟨_, hstep ▸ h.dequeue hat⟩
  | holding k it pc =>
    simp only [hat] at hstep
    exact h.hold hat hstep
  | releaseLock =>
    simp only [hat] at hstep
    split at hstep
    · rename_i hfree
      exact ⟨owner, Option.some.inj hstep ▸
        h.threadLock hat hfree rfl rfl rfl rfl rfl trivial⟩
    · cases hstep
  | reset =>
    simp only [hat, Option.some_inj] at hstep
    exact ⟨owner, hstep ▸ (h.setBusy i false).threadGoto hat rfl rfl rfl trivial⟩
  | releaseSignal =>
    simp only [hat, Option.some_inj] at hstep
    exact ⟨owner, hstep ▸ h.threadGoto hat rfl rfl rfl trivial⟩
  | releaseUnlock =>
    simp only [hat, Option.some_inj] at hstep
    exact ⟨owner, hstep ▸ h.threadUnlock hat rfl rfl rfl rfl rfl trivial⟩

/-- Every statement of every thread keeps queue and connections sound. -/
theorem preserved : Preserved step fun s : Server n => ∃ owner, Sound owner s := by
  rintro s a t ⟨owner, h⟩ hstep
  obtain ⟨-, hstep⟩ := act_of_step hstep
  cases a with
  | accept fd addr =>
    simp only [act, acceptClient] at hstep
    split at hstep
    · rename_i hcond
      exact ⟨_, Option.some.inj hstep ▸ h.accept hcond.1 addr hcond.2⟩
    · cases hstep
  | read bytes =>
    simp only [act, readMessage] at hstep
    split at hstep
    · rename_i hat
      exact ⟨owner, Option.some.inj hstep ▸ h.read hat _⟩
    · cases hstep
  | main => exact h.mainStep hstep
  | signal woken =>
    simp only [act, ClientQueue.signal] at hstep
    split at hstep
    · rename_i hcond
      exact ⟨owner, Option.some.inj hstep ▸ h.signal hcond.1 hcond.2.1⟩
    · cases hstep
  | service i now => exact h.serviceServerThread hstep
  | wakeUp i =>
    simp only [act, wakeUp] at hstep
    split at hstep
    · rename_i hat
      exact ⟨owner, Option.some.inj hstep ▸ h.threadGoto hat rfl rfl rfl trivial⟩
    · rename_i hat
      exact ⟨owner, Option.some.inj hstep ▸ h.threadGoto hat rfl rfl rfl trivial⟩
    · cases hstep
  | reset k broken =>
    simp only [act, ClientQueue.reset] at hstep
    split at hstep
    · exact ⟨owner, Option.some.inj hstep ▸ h.reset k broken⟩
    · cases hstep

theorem reachable (hs : Reachable step (· = ClientQueue.initServers n) s) :
    ∃ owner, Sound owner s :=
  preserved.reachable (fun _ h₀ => by subst h₀; exact ⟨_, initServers⟩) hs

end Sound

end UnixLessons.ClientQueue

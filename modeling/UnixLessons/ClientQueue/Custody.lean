import Mathlib.Data.List.Nodup
import UnixLessons.ClientQueue.Server

/-!
# The way of a connection

Each connection is with the main thread, in the queue, with one service thread,
or closed. `Custody` says that the places of the threads and the queue agree with
a map that has one owner for each connection; `Records` says what is on record
for a connection with each owner. A connection changes hands five times at most,
and each handing over is a rule here.

## Main results

* `Custody.toQueue`, `Custody.toThread`, `Custody.refuse`, `Custody.finish`:
  the handings over
* `Records.hand`, `Records.close`: what is on record after them
-/

namespace UnixLessons.ClientQueue

open Text

variable {n : ℕ}

/-- Who has a connection. -/
inductive Owner (n : ℕ) where
  | main
  | queue
  | thread (i : Fin n)
  | closed
deriving DecidableEq

variable {owner : ℕ → Option (Owner n)} {main : Option ℕ} {thread : Fin n → Option ℕ}
variable {contents rest accepted dequeued : List ℕ} {next : ℕ} {conn : ℕ → Conn}
variable {openFd : ℕ → Option ℕ} {i : Fin n} {k fd : ℕ} {new : Owner n}

/-- The threads and the queue have the connections `owner` says they have. -/
structure Custody (owner : ℕ → Option (Owner n)) (main : Option ℕ) (thread : Fin n → Option ℕ)
    (contents : List ℕ) (next : ℕ) : Prop where
  main_iff : ∀ k, main = some k ↔ owner k = some .main
  thread_iff : ∀ i k, thread i = some k ↔ owner k = some (.thread i)
  queue_iff : ∀ k, k ∈ contents ↔ owner k = some .queue
  nodup : contents.Nodup
  arrived_iff : ∀ k, k < next ↔ owner k ≠ none

namespace Custody

theorem start : Custody (fun _ => (none : Option (Owner n))) none (fun _ => none) [] 0 := by
  constructor <;> simp

/-- A new connection is with the main thread. -/
theorem arrive (h : Custody owner none thread contents next) :
    Custody (Function.update owner next (some .main)) (some next) thread contents (next + 1) := by
  have hnew : owner next = none := by
    by_contra hne
    exact absurd ((h.arrived_iff next).mpr hne) (Nat.lt_irrefl _)
  refine ⟨fun k => ?_, fun i k => ?_, fun k => ?_, h.nodup, fun k => ?_⟩ <;>
    by_cases hk : k = next
  · simp [hk]
  · simpa [hk, Ne.symm hk] using h.main_iff k
  · subst hk; simpa [hnew] using h.thread_iff i k
  · simpa [hk] using h.thread_iff i k
  · subst hk; simpa [hnew] using h.queue_iff k
  · simpa [hk] using h.queue_iff k
  · simp [hk]
  · have harrived := h.arrived_iff k
    simp only [Function.update_of_ne hk, ← harrived]
    omega

/-- The main thread puts its connection into the queue. -/
theorem toQueue (h : Custody owner (some k) thread contents next) :
    Custody (Function.update owner k (some .queue)) none thread (contents ++ [k]) next := by
  have howner : owner k = some .main := (h.main_iff k).mp rfl
  have hnew : k ∉ contents := fun hk => by simp [(h.queue_iff k).mp hk] at howner
  refine ⟨fun k' => ?_, fun i k' => ?_, fun k' => ?_,
    List.nodup_append.mpr ⟨h.nodup, List.nodup_singleton k, ?_⟩, fun k' => ?_⟩
  · by_cases hk : k' = k
    · simp [hk]
    · simpa [hk, Ne.symm hk] using h.main_iff k'
  · by_cases hk : k' = k
    · subst hk; simpa [howner] using h.thread_iff i k'
    · simpa [hk] using h.thread_iff i k'
  · by_cases hk : k' = k
    · simp [hk]
    · simpa [hk] using h.queue_iff k'
  · rintro a ha b hb rfl
    exact hnew (List.mem_singleton.mp hb ▸ ha)
  · by_cases hk : k' = k
    · subst hk; simpa [howner] using h.arrived_iff k'
    · simpa [hk] using h.arrived_iff k'

/-- A service thread takes the first connection out of the queue. -/
theorem toThread (h : Custody owner main thread (k :: rest) next) (hnone : thread i = none) :
    Custody (Function.update owner k (some (.thread i))) main
      (Function.update thread i (some k)) rest next := by
  have howner : owner k = some .queue := (h.queue_iff k).mp List.mem_cons_self
  have hnodup := List.nodup_cons.mp h.nodup
  refine ⟨fun k' => ?_, fun j k' => ?_, fun k' => ?_, hnodup.2, fun k' => ?_⟩
  · by_cases hk : k' = k
    · subst hk; simpa [howner] using h.main_iff k'
    · simpa [hk] using h.main_iff k'
  · have hthread := h.thread_iff j k'
    by_cases hk : k' = k
    · subst hk
      by_cases hj : j = i
      · simp [hj]
      · rw [howner] at hthread
        simpa [hj, Ne.symm hj] using hthread
    · by_cases hj : j = i
      · subst hj
        rw [hnone] at hthread
        simpa [hk, Ne.symm hk] using hthread
      · simpa [hk, hj] using hthread
  · have hqueue := h.queue_iff k'
    by_cases hk : k' = k
    · subst hk; simpa using hnodup.1
    · rw [List.mem_cons, or_iff_right hk] at hqueue
      simpa [hk] using hqueue
  · by_cases hk : k' = k
    · subst hk; simpa [howner] using h.arrived_iff k'
    · simpa [hk] using h.arrived_iff k'

/-- The main thread closes its connection. -/
theorem refuse (h : Custody owner (some k) thread contents next) :
    Custody (Function.update owner k (some .closed)) none thread contents next := by
  have howner : owner k = some .main := (h.main_iff k).mp rfl
  refine ⟨fun k' => ?_, fun j k' => ?_, fun k' => ?_, h.nodup, fun k' => ?_⟩ <;>
    by_cases hk : k' = k
  · simp [hk]
  · simpa [hk, Ne.symm hk] using h.main_iff k'
  · subst hk; simpa [howner] using h.thread_iff j k'
  · simpa [hk] using h.thread_iff j k'
  · subst hk; simpa [howner] using h.queue_iff k'
  · simpa [hk] using h.queue_iff k'
  · subst hk; simpa [howner] using h.arrived_iff k'
  · simpa [hk] using h.arrived_iff k'

/-- A service thread closes its connection. -/
theorem finish (h : Custody owner main thread contents next) (hsome : thread i = some k) :
    Custody (Function.update owner k (some .closed)) main (Function.update thread i none)
      contents next := by
  have howner : owner k = some (.thread i) := (h.thread_iff i k).mp hsome
  refine ⟨fun k' => ?_, fun j k' => ?_, fun k' => ?_, h.nodup, fun k' => ?_⟩ <;>
    by_cases hk : k' = k
  · subst hk; simpa [howner] using h.main_iff k'
  · simpa [hk] using h.main_iff k'
  · subst hk
    have hthread := h.thread_iff j k'
    by_cases hj : j = i
    · simp [hj]
    · rw [howner] at hthread
      simpa [hj, Ne.symm hj] using hthread
  · have hthread := h.thread_iff j k'
    by_cases hj : j = i
    · subst hj
      rw [hsome] at hthread
      simpa [hk, Ne.symm hk] using hthread
    · simpa [hk, hj] using hthread
  · subst hk; simpa [howner] using h.queue_iff k'
  · simpa [hk] using h.queue_iff k'
  · subst hk; simpa [howner] using h.arrived_iff k'
  · simpa [hk] using h.arrived_iff k'

end Custody

/-! ### What is on record -/

/-- The message starts with `TIME`. -/
def AsksTime (message : CString) : Prop := ∃ rest, message = "TIME".toList ++ rest

theorem isTime_iff {message : CString} : isTime message = true ↔ AsksTime message := by
  rw [isTime, List.isPrefixOf_iff_prefix]
  exact exists_congr fun _ => eq_comm

/-- The one reply a client deserves: the time that was asked for on its behalf, if
its message starts with `TIME`, and else the error. -/
def OwnReply (x : Conn) : Prop :=
  (AsksTime x.item.message ∧ ∃ now, x.time = some now ∧ x.replies = [now]) ∨
    (¬ AsksTime x.item.message ∧ x.replies = [errorStringTime])

namespace Conn

variable {x y : Conn}

/-- Nothing has been sent to the client, and the time was not asked for. -/
def Fresh (x : Conn) : Prop := x.replies = [] ∧ x.time = none

/-- What was sent did not come to the client, which has reset the connection. -/
def Lost (x : Conn) : Prop := x.broken ≠ none ∧ x.replies = []

/-- What happens to a client out of the queue in any case: it gets some time or the
error, unless that is lost. -/
def Served (x : Conn) : Prop :=
  x.Lost ∨ (AsksTime x.item.message ∧ ∃ now text, x.time = some now ∧ x.replies = [text]) ∨
    (¬ AsksTime x.item.message ∧ x.time = none ∧ x.replies = [errorStringTime])

/-- The same connection, perhaps reset in the meantime. -/
structure Same (x y : Conn) : Prop where
  item : y.item = x.item
  replies : y.replies = x.replies
  time : y.time = x.time
  broken : x.broken ≠ none → y.broken ≠ none

theorem Same.of_eq (h : y = x) : x.Same y := h ▸ ⟨rfl, rfl, rfl, id⟩

theorem Fresh.same (h : x.Fresh) (hxy : x.Same y) : y.Fresh :=
  ⟨hxy.replies.trans h.1, hxy.time.trans h.2⟩

theorem Lost.same (h : x.Lost) (hxy : x.Same y) : y.Lost :=
  ⟨hxy.broken h.1, hxy.replies.trans h.2⟩

theorem Served.same (h : x.Served) (hxy : x.Same y) : y.Served := by
  unfold Served
  rw [hxy.item, hxy.replies, hxy.time]
  exact h.imp_left fun hlost => hlost.same hxy

theorem Served.length_le (h : x.Served) : x.replies.length ≤ 1 := by
  rcases h with ⟨-, hnil⟩ | ⟨-, -, text, -, htext⟩ | ⟨-, -, herror⟩
  · simp [hnil]
  · simp [htext]
  · simp [herror]

end Conn

/-- What became of a closed connection: it was refused, or it left the queue and
was served. -/
def Answered (conn : ℕ → Conn) (accepted dequeued : List ℕ) (k : ℕ) : Prop :=
  (k ∉ accepted ∧ ((conn k).Lost ∨ (conn k).time = none ∧ (conn k).replies = [errorQueueFull])) ∨
    (k ∈ dequeued ∧ (conn k).Served)

theorem Answered.same {conn' : ℕ → Conn} (h : Answered conn accepted dequeued k)
    (hsame : (conn k).Same (conn' k)) : Answered conn' accepted dequeued k := by
  rcases h with ⟨hout, hfull⟩ | ⟨hin, hserved⟩
  · refine .inl ⟨hout, ?_⟩
    rw [hsame.replies, hsame.time]
    exact hfull.imp_left fun hlost => hlost.same hsame
  · exact .inr ⟨hin, hserved.same hsame⟩

/-- A connection is open while somebody has it. Closing it is the last that
happens to it, after one reply. -/
structure Records (owner : ℕ → Option (Owner n)) (conn : ℕ → Conn) (openFd : ℕ → Option ℕ)
    (accepted dequeued : List ℕ) : Prop where
  openFd_iff : ∀ fd k, openFd fd = some k ↔
    (conn k).item.clientFd = fd ∧ owner k ≠ none ∧ owner k ≠ some .closed
  closes : ∀ k, (conn k).closes = if owner k = some .closed then 1 else 0
  waiting : ∀ k, owner k = some .queue → (conn k).Fresh
  closed : ∀ k, owner k = some .closed → Answered conn accepted dequeued k
  entered : ∀ k ∈ accepted, owner k ≠ none ∧ owner k ≠ some .main

namespace Records

theorem start : Records (fun _ => (none : Option (Owner n)))
    (fun _ => ⟨default, [], 0, none, none⟩) (fun _ => none) [] [] := by
  constructor <;> simp

/-- The descriptor of a connection somebody has leads to it. -/
theorem openFd_of_owner (h : Records owner conn openFd accepted dequeued)
    (howner : owner k = some new) (hnew : new ≠ .closed) :
    openFd (conn k).item.clientFd = some k :=
  (h.openFd_iff _ k).mpr ⟨rfl, by simp [howner], by simpa [howner] using hnew⟩

/-- A connection is accepted on a free descriptor. -/
theorem arrive (h : Records owner conn openFd accepted dequeued) {addr : Addr}
    (hnone : owner k = none) (hfree : openFd fd = none) :
    Records (Function.update owner k (some .main))
      (Function.update conn k (.accepted fd addr)) (Function.update openFd fd (some k))
      accepted dequeued := by
  refine ⟨fun fd' k' => ?_, fun k' => ?_, fun k' hk' => ?_, fun k' hk' => ?_, fun k' hk' => ?_⟩
  · have hopen := h.openFd_iff fd' k'
    by_cases hk : k' = k
    · subst hk
      by_cases hfd : fd' = fd
      · simp [hfd, Conn.accepted]
      · rw [hnone] at hopen
        simpa [hfd, Ne.symm hfd, Conn.accepted] using hopen
    · by_cases hfd : fd' = fd
      · subst hfd
        rw [hfree] at hopen
        simpa [hk, Ne.symm hk] using hopen
      · simpa [hk, hfd] using hopen
  · by_cases hk : k' = k
    · simp [hk, Conn.accepted]
    · simpa [hk] using h.closes k'
  · by_cases hk : k' = k
    · simp [hk] at hk'
    · simpa [hk] using h.waiting k' (by simpa [hk] using hk')
  · by_cases hk : k' = k
    · simp [hk] at hk'
    · simpa [Answered, hk] using h.closed k' (by simpa [hk] using hk')
  · by_cases hk : k' = k
    · subst hk
      exact absurd hnone (h.entered k' hk').1
    · simpa [hk] using h.entered k' hk'

/-- What is read from or sent to a connection outside the queue. -/
theorem setConn (h : Records owner conn openFd accepted dequeued) {x : Conn}
    (hqueue : owner k ≠ some .queue) (hclosed : owner k ≠ some .closed)
    (hfd : x.item.clientFd = (conn k).item.clientFd) (hcloses : x.closes = (conn k).closes) :
    Records owner (Function.update conn k x) openFd accepted dequeued := by
  refine ⟨fun fd' k' => ?_, fun k' => ?_, fun k' hk' => ?_, fun k' hk' => ?_, h.entered⟩ <;>
    by_cases hk : k' = k
  · subst hk; simpa [hfd] using h.openFd_iff fd' k'
  · simpa [hk] using h.openFd_iff fd' k'
  · subst hk; simpa [hcloses] using h.closes k'
  · simpa [hk] using h.closes k'
  · exact absurd (hk ▸ hk') hqueue
  · simpa [hk] using h.waiting k' hk'
  · exact absurd (hk ▸ hk') hclosed
  · simpa [Answered, hk] using h.closed k' hk'

/-- A client resets its connection, wherever that is. -/
theorem reset (h : Records owner conn openFd accepted dequeued) (k : ℕ) (broken : Broken) :
    Records owner (Function.update conn k { conn k with broken := some broken }) openFd
      accepted dequeued := by
  have hsame : ∀ k', (conn k').Same
      (Function.update conn k { conn k with broken := some broken } k') := by
    intro k'
    by_cases hk : k' = k
    · subst hk; simp [Conn.Same.mk]
    · exact .of_eq (Function.update_of_ne hk _ _)
  have hcloses : ∀ k', (Function.update conn k { conn k with broken := some broken } k').closes =
      (conn k').closes := by
    intro k'
    by_cases hk : k' = k
    · subst hk; simp
    · rw [Function.update_of_ne hk]
  refine ⟨fun fd' k' => ?_, fun k' => ?_, fun k' hk' => ?_, fun k' hk' => ?_, h.entered⟩
  · rw [(hsame k').item]
    exact h.openFd_iff fd' k'
  · rw [hcloses]
    exact h.closes k'
  · exact (h.waiting k' hk').same (hsame k')
  · exact (h.closed k' hk').same (hsame k')

/-- A connection enters the queue. -/
theorem toQueue (h : Records owner conn openFd accepted dequeued)
    (howner : owner k = some .main) (hfresh : (conn k).Fresh) :
    Records (Function.update owner k (some .queue)) conn openFd (accepted ++ [k]) dequeued := by
  refine ⟨fun fd' k' => ?_, fun k' => ?_, fun k' hk' => ?_, fun k' hk' => ?_, fun k' hk' => ?_⟩ <;>
    by_cases hk : k' = k
  · subst hk; simpa [howner] using h.openFd_iff fd' k'
  · simpa [hk] using h.openFd_iff fd' k'
  · subst hk; simpa [howner] using h.closes k'
  · simpa [hk] using h.closes k'
  · subst hk; exact hfresh
  · exact h.waiting k' (by simpa [hk] using hk')
  · simp [hk] at hk'
  · simpa [Answered, hk] using h.closed k' (by simpa [hk] using hk')
  · simp [hk]
  · simpa [hk] using h.entered k' (by simpa [hk] using hk')

/-- A connection leaves the queue. -/
theorem toThread (h : Records owner conn openFd accepted dequeued)
    (howner : owner k = some .queue) :
    Records (Function.update owner k (some (.thread i))) conn openFd accepted
      (dequeued ++ [k]) := by
  refine ⟨fun fd' k' => ?_, fun k' => ?_, fun k' hk' => ?_, fun k' hk' => ?_, fun k' hk' => ?_⟩ <;>
    by_cases hk : k' = k
  · subst hk; simpa [howner] using h.openFd_iff fd' k'
  · simpa [hk] using h.openFd_iff fd' k'
  · subst hk; simpa [howner] using h.closes k'
  · simpa [hk] using h.closes k'
  · simp [hk] at hk'
  · exact h.waiting k' (by simpa [hk] using hk')
  · simp [hk] at hk'
  · exact (h.closed k' (by simpa [hk] using hk')).imp_right fun hout =>
      ⟨List.mem_append_left _ hout.1, hout.2⟩
  · simp [hk]
  · simpa [hk] using h.entered k' hk'

/-- Closing an answered connection. -/
theorem close (h : Records owner conn openFd accepted dequeued) {old : Owner n}
    (howner : owner k = some old) (hold : old ≠ .closed)
    (hanswered : Answered conn accepted dequeued k) :
    Records (Function.update owner k (some .closed))
      (Function.update conn k { conn k with closes := (conn k).closes + 1 })
      (Function.update openFd (conn k).item.clientFd none) accepted dequeued := by
  have hopen := h.openFd_of_owner howner hold
  refine ⟨fun fd' k' => ?_, fun k' => ?_, fun k' hk' => ?_, fun k' hk' => ?_, fun k' hk' => ?_⟩
  · have hiff := h.openFd_iff fd' k'
    by_cases hk : k' = k
    · subst hk
      by_cases hfd : fd' = (conn k').item.clientFd
      · simp [hfd]
      · simpa [hfd, howner, hold, Ne.symm hfd] using hiff
    · by_cases hfd : fd' = (conn k).item.clientFd
      · subst hfd
        rw [hopen] at hiff
        simpa [hk, Ne.symm hk] using hiff
      · simpa [hk, hfd] using hiff
  · by_cases hk : k' = k
    · subst hk
      simp [h.closes k', howner, hold]
    · simpa [hk] using h.closes k'
  · by_cases hk : k' = k
    · simp [hk] at hk'
    · simpa [hk] using h.waiting k' (by simpa [hk] using hk')
  · by_cases hk : k' = k
    · subst hk; simpa [Answered, Conn.Lost, Conn.Served] using hanswered
    · simpa [Answered, hk] using h.closed k' (by simpa [hk] using hk')
  · by_cases hk : k' = k
    · simp [hk]
    · simpa [hk] using h.entered k' hk'

end Records

end UnixLessons.ClientQueue

import Mathlib.Data.List.Nodup
import UnixLessons.ServicePool.Server

/-!
# A service server has one client at a time

The reservation of a server travels from the main thread to the client, with the
client to the listening socket, and with the connection to the service thread,
which resets the server. At each moment one party holds it, so the reset ends
the only reservation there is.

## Main results

* `Exclusive`: where the reservations are
* `Exclusive.preserved`: every statement of every party keeps them there
-/

namespace UnixLessons.ServicePool

open Text Transition

variable {s t : Pool} {c : ℕ} {i : Fin maxClients}

/-! ### The endpoint on its way -/

def portOf (i : Fin maxClients) : ℤ := startPort + i

theorem portOf_injective : Function.Injective portOf := by
  intro i j h
  simp only [portOf] at h
  exact Fin.ext (by omega)

/-- The client reads the port the main server printed. -/
theorem parseEndpoint_portOf (i : Fin maxClients) :
    parseEndpoint (endpoint (portOf i)) = some ("127.0.0.1".toList, portOf i) := by
  have hlt : i.val < 3 := i.isLt
  apply parseEndpoint_endpoint
  · simp only [portOf, startPort]
    omega
  · simp only [portOf, startPort]
    omega

theorem not_error_endpoint (i : Fin maxClients) :
    "ERROR".toList.isPrefixOf (endpoint (portOf i)) = false := by
  revert i
  decide

/-! ### Who holds a reservation -/

/-- The client whose answer the main thread owes. -/
def MainPc.client : MainPc → Option ℕ
  | .accept | .close => none
  | .lock c _ | .test c _ | .set c _ | .unlockFound c _ | .unlockBusy c _ | .send c _
  | .sendNone c => some c

/-- The server the main thread has found for its client. -/
def MainPc.found : MainPc → Option (Fin maxClients)
  | .unlockFound _ i | .send _ i => some i
  | _ => none

/-- The client a service thread has accepted and not yet reset its server after. -/
def ThreadPc.client : ThreadPc → Option ℕ
  | .accept | .unlock => none
  | .read c | .reply c _ | .close c | .lock c | .reset c => some c

/-- The client has connected to a service server. -/
def ClientPc.isConnected : ClientPc → Bool
  | .connected | .asked | .done => true
  | _ => false

/-- The client waits for an answer that has not been sent. -/
def Client.Unanswered (x : Client) : Prop := x.pc = .waiting ∧ x.inbox = none

theorem Client.answered_of_inbox {x : Client} {buffer : CString} (h : x.inbox = some buffer) :
    ¬ x.Unanswered := by
  intro hun
  rw [hun.2] at h
  cases h

theorem Client.answered_of_pc {x : Client} {pc : ClientPc} (hpc : x.pc = pc)
    (hne : pc ≠ .waiting) : ¬ x.Unanswered :=
  fun hun => hne (hpc.symm.trans hun.1)

/-- Each busy server is reserved for one client, and the reservation is with one
party at a time: the main thread, the client, the socket or the service thread. -/
structure Exclusive (s : Pool) : Prop where
  port : ∀ i, (s.server i).port = portOf i
  busy : ∀ i, (s.server i).isBusy = true → ∃ c, s.reserved i = [c]
  free : ∀ i, (s.server i).isBusy = false → s.reserved i = []
  fresh : ∀ c, (s.client c).pc = .start → (s.client c).inbox = none
  nodup : s.backlog.Nodup
  queued : ∀ c ∈ s.backlog, (s.client c).Unanswered
  due : ∀ c, s.mainAt.client = some c → c ∉ s.backlog ∧ (s.client c).Unanswered
  setFree : ∀ c i, s.mainAt = .set c i → (s.server i).isBusy = false
  found : ∀ c i, s.mainAt.client = some c → s.mainAt.found = some i → c ∈ s.reserved i
  inbox : ∀ c text, (s.client c).pc = .waiting → (s.client c).inbox = some text →
    text = noServers ∨ ∃ i, text = endpoint (portOf i) ∧ c ∈ s.reserved i
  handed : ∀ c port, (s.client c).pc = .handed port → ∃ i, port = portOf i ∧ c ∈ s.reserved i
  pendingNodup : ∀ i, (s.pending i).Nodup
  pending : ∀ i, ∀ c ∈ s.pending i, c ∈ s.reserved i ∧ (s.client c).pc.isConnected = true ∧
    (s.threadAt i).client ≠ some c
  serving : ∀ i c, (s.threadAt i).client = some c →
    c ∈ s.reserved i ∧ (s.client c).pc.isConnected = true

namespace Exclusive

theorem initServers (outcome : Fin maxClients → InitOutcome) :
    Exclusive (initServers outcome) := by
  constructor <;> simp [ServicePool.initServers, initServer, portOf, MainPc.client,
    ThreadPc.client]

/-- A moved main thread that owes the same answer, or none. -/
theorem mainGoto (h : Exclusive s) {old pc : MainPc} (hat : s.mainAt = old)
    (hclient : pc.client = old.client ∨ pc.client = none)
    (hfound : pc.found = old.found ∨ pc.found = none)
    (hset : ∀ c i, pc = .set c i → (s.server i).isBusy = false) : Exclusive (s.mainGoto pc) where
  port := h.port
  busy := h.busy
  free := h.free
  fresh := h.fresh
  nodup := h.nodup
  queued := h.queued
  due c hc := by
    rcases hclient with heq | heq
    · exact h.due c (by rw [hat, ← heq]; exact hc)
    · rw [Pool.mainGoto, heq] at hc
      cases hc
  setFree := hset
  found c i hc hi := by
    rcases hclient with heq | heq
    · rcases hfound with heq' | heq'
      · exact h.found c i (by rw [hat, ← heq]; exact hc) (by rw [hat, ← heq']; exact hi)
      · rw [Pool.mainGoto, heq'] at hi
        cases hi
    · rw [Pool.mainGoto, heq] at hc
      cases hc
  inbox := h.inbox
  handed := h.handed
  pendingNodup := h.pendingNodup
  pending := h.pending
  serving := h.serving

theorem setMutex (h : Exclusive s) (i : Fin maxClients) (holder : Option Thread) :
    Exclusive (s.setMutex i holder) := by
  have hport : ∀ j, ((s.setMutex i holder).server j).port = (s.server j).port := by
    intro j
    by_cases hj : j = i
    · subst hj; simp [Pool.setMutex]
    · simp [Pool.setMutex, hj]
  have hbusy : ∀ j, ((s.setMutex i holder).server j).isBusy = (s.server j).isBusy := by
    intro j
    by_cases hj : j = i
    · subst hj; simp [Pool.setMutex]
    · simp [Pool.setMutex, hj]
  exact ⟨fun j => (hport j).trans (h.port j), fun j hj => h.busy j (hbusy j ▸ hj),
    fun j hj => h.free j (hbusy j ▸ hj), h.fresh, h.nodup, h.queued, h.due,
    fun c j hj => (hbusy j).trans (h.setFree c j hj), h.found, h.inbox, h.handed,
    h.pendingNodup, h.pending, h.serving⟩

/-- A service thread that moves on with the client it has, or without one. -/
theorem threadGoto (h : Exclusive s) {old pc : ThreadPc} (hat : s.threadAt i = old)
    (hclient : pc.client = old.client ∨ pc.client = none) :
    Exclusive (s.threadGoto i pc) where
  port := h.port
  busy := h.busy
  free := h.free
  fresh := h.fresh
  nodup := h.nodup
  queued := h.queued
  due := h.due
  setFree := h.setFree
  found := h.found
  inbox := h.inbox
  handed := h.handed
  pendingNodup := h.pendingNodup
  pending j c hc := by
    obtain ⟨hres, hconn, hthread⟩ := h.pending j c hc
    refine ⟨hres, hconn, ?_⟩
    by_cases hj : j = i
    · subst hj hat
      rcases hclient with heq | heq
      · simpa [Pool.threadGoto, heq] using hthread
      · simp [Pool.threadGoto, heq]
    · simpa [Pool.threadGoto, hj] using hthread
  serving j c hc := by
    by_cases hj : j = i
    · subst hj hat
      rcases hclient with heq | heq
      · exact h.serving j c (by simpa [Pool.threadGoto, heq] using hc)
      · simp [Pool.threadGoto, heq] at hc
    · exact h.serving j c (by simpa [Pool.threadGoto, hj] using hc)

/-- What is sent over a connection, or a client that vanishes, moves no
reservation. -/
theorem setClient (h : Exclusive s) {x : Client} (hpc : x.pc = (s.client c).pc)
    (hinbox : x.inbox = (s.client c).inbox) : Exclusive (s.setClient c x) := by
  have hpc' : ∀ c', ((s.setClient c x).client c').pc = (s.client c').pc := by
    intro c'
    by_cases hc : c' = c
    · subst hc; simpa [Pool.setClient] using hpc
    · simp [Pool.setClient, hc]
  have hinbox' : ∀ c', ((s.setClient c x).client c').inbox = (s.client c').inbox := by
    intro c'
    by_cases hc : c' = c
    · subst hc; simpa [Pool.setClient] using hinbox
    · simp [Pool.setClient, hc]
  have hunanswered : ∀ c', ((s.setClient c x).client c').Unanswered ↔
      (s.client c').Unanswered := fun c' => by
    rw [Client.Unanswered, hpc', hinbox', Client.Unanswered]
  exact ⟨h.port, h.busy, h.free, fun c' hc' => (hinbox' c').trans (h.fresh c' (hpc' c' ▸ hc')),
    h.nodup, fun c' hc' => (hunanswered c').mpr (h.queued c' hc'),
    fun c' hc' => (h.due c' hc').imp_right (hunanswered c').mpr, h.setFree, h.found,
    fun c' text h₁ h₂ => h.inbox c' text (hpc' c' ▸ h₁) (hinbox' c' ▸ h₂),
    fun c' port h₁ => h.handed c' port (hpc' c' ▸ h₁), h.pendingNodup,
    fun j c' hc' => by rw [hpc']; exact h.pending j c' hc',
    fun j c' hc' => by rw [hpc']; exact h.serving j c' hc'⟩

/-! ### The main thread -/

theorem acceptBacklog (h : Exclusive s) {backlog : List ℕ} (hb : s.backlog = c :: backlog) :
    Exclusive { s with backlog, mainAt := .lock c 0 } := by
  have hnodup := h.nodup
  rw [hb, List.nodup_cons] at hnodup
  have hmem : ∀ c' ∈ backlog, c' ∈ s.backlog := fun c' hc' => by simp [hb, hc']
  refine { h with
    nodup := hnodup.2
    queued := fun c' hc' => h.queued c' (hmem c' hc')
    due := ?_
    setFree := fun _ _ hset => by cases hset
    found := fun _ _ _ hfound => by cases hfound }
  intro c' hc'
  obtain rfl := Option.some.inj hc'
  exact ⟨hnodup.1, h.queued c (by simp [hb])⟩

theorem dropBacklog (h : Exclusive s) {backlog : List ℕ} (hb : s.backlog = c :: backlog) :
    Exclusive { s with backlog } := by
  have hnodup := h.nodup
  rw [hb, List.nodup_cons] at hnodup
  have hmem : ∀ c' ∈ backlog, c' ∈ s.backlog := fun c' hc' => by simp [hb, hc']
  exact { h with
    nodup := hnodup.2
    queued := fun c' hc' => h.queued c' (hmem c' hc')
    due := fun c' hc' => (h.due c' hc').imp_left fun hnot hc => hnot (hmem c' hc) }

/-- Nobody is given a server that has a client. -/
theorem reserved_of_set (h : Exclusive s) (hmain : s.mainAt = .set c i) : s.reserved i = [] :=
  h.free i (h.setFree c i hmain)

/-- The main thread reserves the server it found free. -/
theorem reserve (h : Exclusive s) (hmain : s.mainAt = .set c i) :
    Exclusive { (s.setBusy i true).mainGoto (.unlockFound c i) with
      reserved := Function.update s.reserved i (s.reserved i ++ [c]) } := by
  have hempty : s.reserved i = [] := h.reserved_of_set hmain
  have hmono : ∀ j c', c' ∈ s.reserved j →
      c' ∈ Function.update s.reserved i (s.reserved i ++ [c]) j := by
    intro j c' hc'
    by_cases hj : j = i
    · subst hj; simp [hc']
    · simpa [hj] using hc'
  refine { h with
    port := fun j => ?_
    busy := fun j hj => ?_
    free := fun j hj => ?_
    due := fun c' hc' => h.due c' (by rw [hmain]; exact hc')
    setFree := fun _ _ hset => by cases hset
    found := fun c' j hc' hj => ?_
    inbox := fun c' text h₁ h₂ => (h.inbox c' text h₁ h₂).imp_right fun ⟨j, hj, hres⟩ =>
      ⟨j, hj, hmono j c' hres⟩
    handed := fun c' port h₁ => (h.handed c' port h₁).imp fun j hj => hj.imp_right (hmono j c')
    pending := fun j c' hc' => (h.pending j c' hc').imp_left (hmono j c')
    serving := fun j c' hc' => (h.serving j c' hc').imp_left (hmono j c') }
  · by_cases hj : j = i
    · subst hj; simpa [Pool.setBusy, Pool.mainGoto] using h.port j
    · simpa [Pool.setBusy, Pool.mainGoto, hj] using h.port j
  · by_cases hji : j = i
    · subst hji; exact ⟨c, by simp [hempty]⟩
    · simpa [hji] using h.busy j (by simpa [Pool.setBusy, Pool.mainGoto, hji] using hj)
  · by_cases hji : j = i
    · subst hji; simp [Pool.setBusy, Pool.mainGoto] at hj
    · simpa [hji] using h.free j (by simpa [Pool.setBusy, Pool.mainGoto, hji] using hj)
  · obtain rfl := Option.some.inj hc'
    obtain rfl := Option.some.inj hj
    simp

/-- The main thread answers its client. -/
theorem answer (h : Exclusive s) {text : CString} (hdue : s.mainAt.client = some c)
    (htext : text = noServers ∨ ∃ i, text = endpoint (portOf i) ∧ c ∈ s.reserved i) :
    Exclusive ((s.setClient c { s.client c with inbox := some text }).mainGoto .close) := by
  obtain ⟨hnot, hwaiting, hinbox⟩ := h.due c hdue
  have hpc : ∀ c', ((s.setClient c { s.client c with inbox := some text }).client c').pc =
      (s.client c').pc := by
    intro c'
    by_cases hc : c' = c
    · subst hc; simp [Pool.setClient]
    · simp [Pool.setClient, hc]
  have hother : ∀ c', c' ≠ c →
      (s.setClient c { s.client c with inbox := some text }).client c' = s.client c' :=
    fun c' hc => Function.update_of_ne hc _ _
  refine { h with
    fresh := fun c' hc' => ?_
    queued := fun c' hc' => ?_
    due := fun _ hc' => by cases hc'
    setFree := fun _ _ hset => by cases hset
    found := fun _ _ _ hfound => by cases hfound
    inbox := fun c' text' h₁ h₂ => ?_
    handed := fun c' port h₁ => h.handed c' port ((hpc c').symm.trans h₁)
    pending := fun j c' hc' => ?_
    serving := fun j c' hc' => ?_ }
  · have hstart : (s.client c').pc = .start := (hpc c').symm.trans hc'
    have hc : c' ≠ c := by rintro rfl; simp [hwaiting] at hstart
    rw [Pool.mainGoto, hother c' hc]
    exact h.fresh c' hstart
  · have hc : c' ≠ c := by rintro rfl; exact hnot hc'
    rw [Pool.mainGoto, hother c' hc]
    exact h.queued c' hc'
  · by_cases hc : c' = c
    · subst hc
      obtain rfl : text = text' := by simpa [Pool.mainGoto, Pool.setClient] using h₂
      exact htext
    · rw [Pool.mainGoto, hother c' hc] at h₁ h₂
      exact h.inbox c' text' h₁ h₂
  · rw [Pool.mainGoto, hpc]
    exact h.pending j c' hc'
  · rw [Pool.mainGoto, hpc]
    exact h.serving j c' hc'

/-! ### The service threads -/

theorem dropPending (h : Exclusive s) {pending : List ℕ} (hp : s.pending i = c :: pending) :
    Exclusive { s with pending := Function.update s.pending i pending } := by
  have hsub : ∀ j, (Function.update s.pending i pending j).Sublist (s.pending j) := by
    intro j
    by_cases hj : j = i
    · subst hj; simp [hp]
    · simp [hj]
  exact { h with
    pendingNodup := fun j => (h.pendingNodup j).sublist (hsub j)
    pending := fun j c' hc' => h.pending j c' ((hsub j).subset hc') }

/-- The service thread accepts the first waiting client. -/
theorem acceptPending (h : Exclusive s) {pending : List ℕ} (hp : s.pending i = c :: pending) :
    Exclusive ({ s with pending := Function.update s.pending i pending }.threadGoto i
      (.read c)) := by
  have hnodup := h.pendingNodup i
  rw [hp, List.nodup_cons] at hnodup
  obtain ⟨hres, hconn, -⟩ := h.pending i c (by simp [hp])
  have hdrop := h.dropPending hp
  refine { hdrop with
    pending := fun j c' hc' => ?_
    serving := fun j c' hc' => ?_ }
  · obtain ⟨hres', hconn', hthread⟩ := hdrop.pending j c' hc'
    refine ⟨hres', hconn', ?_⟩
    by_cases hj : j = i
    · subst hj
      have hne : c ≠ c' := by
        rintro rfl
        exact hnodup.1 (by simpa [Pool.threadGoto] using hc')
      simpa [Pool.threadGoto, ThreadPc.client] using hne
    · simpa [Pool.threadGoto, hj] using hthread
  · by_cases hj : j = i
    · subst hj
      obtain rfl : c = c' := by simpa [Pool.threadGoto, ThreadPc.client] using hc'
      exact ⟨hres, hconn⟩
    · exact h.serving j c' (by simpa [Pool.threadGoto, hj] using hc')

/-- The reservation of a server is the only one there is. -/
theorem reserved_of_mem (h : Exclusive s) (hres : c ∈ s.reserved i) : s.reserved i = [c] := by
  cases hbusy : (s.server i).isBusy with
  | true =>
    obtain ⟨c', hc'⟩ := h.busy i hbusy
    rw [hc', List.mem_singleton] at hres
    rw [hc', hres]
  | false =>
    rw [h.free i hbusy] at hres
    cases hres

/-- The service thread ends the reservation of the client it served. -/
theorem reset (h : Exclusive s) (hthread : s.threadAt i = .reset c) :
    Exclusive { (s.setBusy i false).threadGoto i .unlock with
      reserved := Function.update s.reserved i ((s.reserved i).erase c) } := by
  obtain ⟨hres, hconn⟩ := h.serving i c (by rw [hthread]; rfl)
  have honly : s.reserved i = [c] := h.reserved_of_mem hres
  -- Nobody but the service thread has the reservation that ends here.
  have hkeep : ∀ j c', c' ∈ s.reserved j → (j = i → c' ≠ c) →
      c' ∈ Function.update s.reserved i ((s.reserved i).erase c) j := by
    intro j c' hc' hne
    by_cases hj : j = i
    · subst hj
      rw [honly, List.mem_singleton] at hc'
      exact absurd hc' (hne rfl)
    · simpa [hj] using hc'
  have hother : ∀ c', (s.client c').pc.isConnected = false → c' ≠ c := by
    rintro c' hpc rfl
    rw [hpc] at hconn
    cases hconn
  have hnotWaiting : ∀ c', (s.client c').pc = .waiting → c' ≠ c :=
    fun c' hpc => hother c' (by rw [hpc]; rfl)
  refine { h with
    port := fun j => ?_
    busy := fun j hj => ?_
    free := fun j hj => ?_
    setFree := fun c' j hset => ?_
    found := fun c' j hc' hj => hkeep j c' (h.found c' j hc' hj)
      fun _ => hnotWaiting c' (h.due c' hc').2.1
    inbox := fun c' text h₁ h₂ => (h.inbox c' text h₁ h₂).imp_right fun ⟨j, hj, hres'⟩ =>
      ⟨j, hj, hkeep j c' hres' fun _ => hnotWaiting c' h₁⟩
    handed := fun c' port h₁ => (h.handed c' port h₁).imp fun j hj => hj.imp_right fun hres' =>
      hkeep j c' hres' fun _ => hother c' (by rw [show (s.client c').pc = _ from h₁]; rfl)
    pending := fun j c' hc' => ?_
    serving := fun j c' hc' => ?_ }
  · by_cases hj : j = i
    · subst hj; simpa [Pool.setBusy, Pool.threadGoto] using h.port j
    · simpa [Pool.setBusy, Pool.threadGoto, hj] using h.port j
  · by_cases hji : j = i
    · subst hji; simp [Pool.setBusy, Pool.threadGoto] at hj
    · simpa [hji] using h.busy j (by simpa [Pool.setBusy, Pool.threadGoto, hji] using hj)
  · by_cases hji : j = i
    · subst hji; simp [honly]
    · simpa [hji] using h.free j (by simpa [Pool.setBusy, Pool.threadGoto, hji] using hj)
  · by_cases hji : j = i
    · subst hji; simp [Pool.setBusy, Pool.threadGoto]
    · simpa [Pool.setBusy, Pool.threadGoto, hji] using h.setFree c' j hset
  · obtain ⟨hres', hconn', hnot⟩ := h.pending j c' hc'
    refine ⟨hkeep j c' hres' ?_, hconn', ?_⟩
    · rintro rfl rfl
      exact hnot (by rw [hthread]; rfl)
    · by_cases hj : j = i
      · subst hj; simp [Pool.threadGoto, ThreadPc.client]
      · simpa [Pool.setBusy, Pool.threadGoto, hj] using hnot
  · by_cases hj : j = i
    · subst hj; simp [Pool.threadGoto, ThreadPc.client] at hc'
    · obtain ⟨hres', hconn'⟩ :=
        h.serving j c' (by simpa [Pool.setBusy, Pool.threadGoto, hj] using hc')
      exact ⟨hkeep j c' hres' fun heq => absurd heq hj, hconn'⟩

/-! ### The clients -/

/-- A client asks the main server. -/
theorem ask (h : Exclusive s) (hstart : (s.client c).pc = .start) :
    Exclusive { s.setClient c { s.client c with pc := .waiting } with
      backlog := s.backlog ++ [c] } := by
  have hself : (s.setClient c { s.client c with pc := .waiting }).client c =
      { s.client c with pc := .waiting } := Function.update_self _ _ _
  have hother : ∀ c', c' ≠ c →
      (s.setClient c { s.client c with pc := .waiting }).client c' = s.client c' :=
    fun c' hc => Function.update_of_ne hc _ _
  -- What the invariant says of a client rests on where the client is, and this one was at its
  -- start: every clause is about another client or about the new entry of the backlog.
  have hwaiting : ∀ c', (s.client c').pc = .waiting → c' ≠ c := by
    rintro c' hpc rfl
    rw [hstart] at hpc
    cases hpc
  have hconn : ∀ c', (s.client c').pc.isConnected = true → c' ≠ c := by
    rintro c' hpc rfl
    rw [hstart] at hpc
    cases hpc
  have hnew : c ∉ s.backlog := fun hc => hwaiting c (h.queued c hc).1 rfl
  refine { h with
    fresh := fun c' hc' => ?_
    nodup := List.nodup_append.mpr ⟨h.nodup, List.nodup_singleton c, ?_⟩
    queued := fun c' hc' => ?_
    due := fun c' hc' => ?_
    inbox := fun c' text h₁ h₂ => ?_
    handed := fun c' port h₁ => ?_
    pending := fun j c' hc' => ?_
    serving := fun j c' hc' => ?_ }
  · by_cases hc : c' = c
    · subst hc; rw [hself] at hc'; cases hc'
    · rw [hother c' hc] at hc' ⊢
      exact h.fresh c' hc'
  · rintro a ha b hb rfl
    exact hnew (List.mem_singleton.mp hb ▸ ha)
  · rcases List.mem_append.mp hc' with hold | hlast
    · rw [hother c' (hwaiting c' (h.queued c' hold).1)]
      exact h.queued c' hold
    · obtain rfl := List.mem_singleton.mp hlast
      rw [hself]
      exact ⟨rfl, h.fresh c' hstart⟩
  · obtain ⟨hnot, hun⟩ := h.due c' hc'
    have hc := hwaiting c' hun.1
    rw [hother c' hc]
    exact ⟨by simpa [hc] using hnot, hun⟩
  · by_cases hc : c' = c
    · subst hc
      rw [hself, h.fresh c' hstart] at h₂
      cases h₂
    · rw [hother c' hc] at h₁ h₂
      exact h.inbox c' text h₁ h₂
  · by_cases hc : c' = c
    · subst hc; rw [hself] at h₁; cases h₁
    · rw [hother c' hc] at h₁
      exact h.handed c' port h₁
  · have hold := h.pending j c' hc'
    rw [hother c' (hconn c' hold.2.1)]
    exact hold
  · have hold := h.serving j c' hc'
    rw [hother c' (hconn c' hold.2)]
    exact hold

/-- A client that has its answer moves on. -/
theorem moveClient (h : Exclusive s) {x : Client} (hanswered : ¬ (s.client c).Unanswered)
    (hwaiting : x.pc ≠ .waiting) (hstart : x.pc ≠ .start)
    (hhanded : ∀ port, x.pc = .handed port → ∃ i, port = portOf i ∧ c ∈ s.reserved i)
    (hconn : (s.client c).pc.isConnected = true → x.pc.isConnected = true) :
    Exclusive (s.setClient c x) := by
  have hself : (s.setClient c x).client c = x := Function.update_self _ _ _
  have hother : ∀ c', c' ≠ c → (s.setClient c x).client c' = s.client c' :=
    fun c' hc => Function.update_of_ne hc _ _
  have hunanswered : ∀ c', (s.client c').Unanswered →
      ((s.setClient c x).client c').Unanswered := by
    intro c' hun
    rw [hother c' (by rintro rfl; exact hanswered hun)]
    exact hun
  have hconnected : ∀ c', (s.client c').pc.isConnected = true →
      ((s.setClient c x).client c').pc.isConnected = true := by
    intro c' hold
    by_cases hc : c' = c
    · subst hc; rw [hself]; exact hconn hold
    · rw [hother c' hc]; exact hold
  refine { h with
    fresh := fun c' hc' => ?_
    queued := fun c' hc' => hunanswered c' (h.queued c' hc')
    due := fun c' hc' => (h.due c' hc').imp_right (hunanswered c')
    inbox := fun c' text h₁ h₂ => ?_
    handed := fun c' port h₁ => ?_
    pending := fun j c' hc' => (h.pending j c' hc').imp_right (And.imp_left (hconnected c'))
    serving := fun j c' hc' => (h.serving j c' hc').imp_right (hconnected c') }
  · by_cases hc : c' = c
    · subst hc; rw [hself] at hc'; exact absurd hc' hstart
    · rw [hother c' hc] at hc' ⊢
      exact h.fresh c' hc'
  · by_cases hc : c' = c
    · subst hc; rw [hself] at h₁; exact absurd h₁ hwaiting
    · rw [hother c' hc] at h₁ h₂
      exact h.inbox c' text h₁ h₂
  · by_cases hc : c' = c
    · subst hc; rw [hself] at h₁; exact hhanded port h₁
    · rw [hother c' hc] at h₁
      exact h.handed c' port h₁

/-- A client connects to the server it was handed. -/
theorem connect (h : Exclusive s) {port : ℤ} (hpc : (s.client c).pc = .handed port)
    (hlistener : listener s port = some i) :
    Exclusive { s.setClient c { s.client c with pc := .connected } with
      pending := Function.update s.pending i (s.pending i ++ [c]) } := by
  have hres : c ∈ s.reserved i := by
    obtain ⟨j, rfl, hj⟩ := h.handed c port hpc
    have hport := List.find?_some hlistener
    simp only [Bool.and_eq_true, beq_iff_eq] at hport
    rwa [← portOf_injective (hport.2.symm.trans (h.port i))]
  have hnotConn : (s.client c).pc.isConnected = false := by rw [hpc]; rfl
  have hnew : ∀ j, c ∉ s.pending j := by
    intro j hc
    simp [(h.pending j c hc).2.1] at hnotConn
  have hthread : ∀ j, (s.threadAt j).client ≠ some c := by
    intro j hc
    simp [(h.serving j c hc).2] at hnotConn
  have hmoved : Exclusive (s.setClient c { s.client c with pc := .connected }) :=
    h.moveClient (fun hun => by rw [hun.1] at hpc; cases hpc) (by simp) (by simp) (by simp)
      fun _ => rfl
  refine { hmoved with
    pendingNodup := fun j => ?_
    pending := fun j c' hc' => ?_ }
  · by_cases hj : j = i
    · subst hj
      simp only [Function.update_self, List.nodup_append]
      refine ⟨h.pendingNodup j, List.nodup_singleton c, ?_⟩
      rintro a ha b hb rfl
      exact hnew j (List.mem_singleton.mp hb ▸ ha)
    · simpa [hj] using h.pendingNodup j
  · have hcases : c' ∈ s.pending j ∨ (j = i ∧ c' = c) := by
      by_cases hj : j = i
      · subst hj; simpa using hc'
      · exact Or.inl (by simpa [hj] using hc')
    rcases hcases with hold | ⟨rfl, rfl⟩
    · exact hmoved.pending j c' hold
    · exact ⟨hres, by simp [Pool.setClient, ClientPc.isConnected], hthread j⟩

/-! ### Every statement of every party -/

private theorem mainStep (h : Exclusive s) (hstep : mainStep s = some t) : Exclusive t := by
  unfold ServicePool.mainStep at hstep
  cases hmain : s.mainAt with
  | accept =>
    simp only [hmain] at hstep
    cases hb : s.backlog with
    | nil => simp [hb] at hstep
    | cons c backlog =>
      simp only [hb, Option.some_inj] at hstep
      exact hstep ▸ h.acceptBacklog hb
  | lock c k =>
    simp only [hmain] at hstep
    split at hstep
    · split at hstep
      · obtain rfl := Option.some.inj hstep
        exact (h.setMutex _ _).mainGoto hmain (Or.inl rfl) (Or.inr rfl) (by simp)
      · cases hstep
    · obtain rfl := Option.some.inj hstep
      exact h.mainGoto hmain (Or.inl rfl) (Or.inr rfl) (by simp)
  | test c i =>
    simp only [hmain, Option.some_inj] at hstep
    subst hstep
    split
    · rename_i hfree
      refine h.mainGoto hmain (Or.inl rfl) (Or.inr rfl) fun c' j hset => ?_
      obtain ⟨-, rfl⟩ := MainPc.set.inj hset
      exact hfree
    · exact h.mainGoto hmain (Or.inl rfl) (Or.inr rfl) (by simp)
  | set c i =>
    simp only [hmain, Option.some_inj] at hstep
    exact hstep ▸ h.reserve hmain
  | unlockFound c i =>
    simp only [hmain, Option.some_inj] at hstep
    subst hstep
    exact (h.setMutex i none).mainGoto hmain (Or.inl rfl) (Or.inl rfl) (by simp)
  | unlockBusy c i =>
    simp only [hmain, Option.some_inj] at hstep
    subst hstep
    exact (h.setMutex i none).mainGoto hmain (Or.inl rfl) (Or.inr rfl) (by simp)
  | send c i =>
    simp only [hmain, Option.some_inj] at hstep
    subst hstep
    have hdue : s.mainAt.client = some c := by rw [hmain]; rfl
    have hres : c ∈ s.reserved i := h.found c i hdue (by rw [hmain]; rfl)
    exact h.answer hdue (Or.inr ⟨i, by rw [h.port], hres⟩)
  | sendNone c =>
    simp only [hmain, Option.some_inj] at hstep
    exact hstep ▸ h.answer (by rw [hmain]; rfl) (Or.inl rfl)
  | close =>
    simp only [hmain, Option.some_inj] at hstep
    exact hstep ▸ h.mainGoto hmain (Or.inr rfl) (Or.inr rfl) (by simp)

private theorem serviceServerThread (h : Exclusive s)
    (hstep : serviceServerThread s i = some t) : Exclusive t := by
  unfold ServicePool.serviceServerThread at hstep
  cases hthread : s.threadAt i with
  | accept =>
    simp only [hthread] at hstep
    cases hp : s.pending i with
    | nil => simp [hp] at hstep
    | cons c pending =>
      simp only [hp, Option.some_inj] at hstep
      exact hstep ▸ h.acceptPending hp
  | read c =>
    simp only [hthread] at hstep
    split at hstep
    · obtain rfl := Option.some.inj hstep
      exact h.threadGoto hthread (Or.inl rfl)
    · cases hstep
  | reply c buffer =>
    simp only [hthread] at hstep
    split at hstep
    · obtain rfl := Option.some.inj hstep
      refine threadGoto (h.setClient ?_ ?_) hthread (Or.inl rfl) <;> rfl
    · obtain rfl := Option.some.inj hstep
      exact h.threadGoto hthread (Or.inl rfl)
  | close c =>
    simp only [hthread, Option.some_inj] at hstep
    subst hstep
    refine threadGoto (h.setClient ?_ ?_) hthread (Or.inl rfl) <;> rfl
  | lock c =>
    simp only [hthread] at hstep
    split at hstep
    · obtain rfl := Option.some.inj hstep
      exact (h.setMutex i _).threadGoto hthread (Or.inl rfl)
    · cases hstep
  | reset c =>
    simp only [hthread, Option.some_inj] at hstep
    exact hstep ▸ h.reset hthread
  | unlock =>
    simp only [hthread, Option.some_inj] at hstep
    exact hstep ▸ (h.setMutex i none).threadGoto hthread (Or.inr rfl)

private theorem clientStep (h : Exclusive s) (hstep : clientStep s c = some t) :
    Exclusive t := by
  unfold ServicePool.clientStep at hstep
  cases hpc : (s.client c).pc with
  | start =>
    simp only [hpc, Option.some_inj] at hstep
    exact hstep ▸ h.ask hpc
  | waiting =>
    simp only [hpc] at hstep
    cases hinbox : (s.client c).inbox with
    | none => simp [hinbox] at hstep
    | some buffer =>
      have hgot : ¬ (s.client c).Unanswered := Client.answered_of_inbox hinbox
      simp only [hinbox] at hstep
      split at hstep
      · obtain rfl := Option.some.inj hstep
        exact h.moveClient hgot (by simp) (by simp) (by simp) (by simp [hpc, ClientPc.isConnected])
      · rename_i herror
        -- The text is one of the two the main thread sends; parsing gives the port back only
        -- for the one that names a server.
        rcases h.inbox c buffer hpc hinbox with rfl | ⟨i, rfl, hres⟩
        · exact absurd (by decide) herror
        · rw [parseEndpoint_portOf] at hstep
          obtain rfl := Option.some.inj hstep
          refine h.moveClient hgot (by simp) (by simp) ?_ (by simp [hpc, ClientPc.isConnected])
          rintro port heq
          obtain rfl := ClientPc.handed.inj heq
          exact ⟨i, rfl, hres⟩
  | handed port =>
    simp only [hpc] at hstep
    split at hstep
    · obtain rfl := Option.some.inj hstep
      exact h.moveClient (Client.answered_of_pc hpc (by simp)) (by simp) (by simp) (by simp)
        (by simp [hpc, ClientPc.isConnected])
    · rename_i i hlistener
      obtain rfl := Option.some.inj hstep
      exact h.connect hpc hlistener
  | connected =>
    simp only [hpc, Option.some_inj] at hstep
    subst hstep
    exact h.moveClient (Client.answered_of_pc hpc (by simp)) (by simp) (by simp) (by simp)
      fun _ => rfl
  | asked =>
    simp only [hpc] at hstep
    split at hstep
    · obtain rfl := Option.some.inj hstep
      exact h.moveClient (Client.answered_of_pc hpc (by simp)) (by simp) (by simp) (by simp)
        fun _ => rfl
    · cases hstep
  | refused => simp [hpc] at hstep
  | failed => simp [hpc] at hstep
  | done => simp [hpc] at hstep

/-- The reservations are kept by every statement of every party. -/
theorem preserved : Preserved step Exclusive := by
  intro s a t h hstep
  cases a with
  | main => exact h.mainStep hstep
  | abortBacklog =>
    simp only [step, abortBacklog] at hstep
    split at hstep
    · rename_i hb
      obtain rfl := Option.some.inj hstep
      exact (h.dropBacklog hb).setClient rfl rfl
    · cases hstep
  | service i =>
    simp only [step] at hstep
    split at hstep
    · exact h.serviceServerThread hstep
    · cases hstep
  | abortPending i =>
    simp only [step, abortPending] at hstep
    split at hstep
    · split at hstep
      · rename_i hp
        obtain rfl := Option.some.inj hstep
        exact (h.dropPending hp).setClient rfl rfl
      · cases hstep
    · cases hstep
  | client c =>
    simp only [step] at hstep
    split at hstep
    · cases hstep
    · exact h.clientStep hstep
  | vanish c =>
    simp only [step, Option.some_inj] at hstep
    exact hstep ▸ h.setClient rfl rfl

theorem reachable {outcome : Fin maxClients → InitOutcome}
    (hs : Reachable step (· = ServicePool.initServers outcome) s) : Exclusive s :=
  preserved.reachable (fun _ h₀ => by subst h₀; exact initServers outcome) hs

end Exclusive

end UnixLessons.ServicePool

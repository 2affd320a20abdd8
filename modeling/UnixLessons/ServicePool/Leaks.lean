import UnixLessons.ServicePool.Exclusivity

/-!
# Servers that are never free again

A busy server waits for the connection of the one client it is reserved for, and
only its thread, after it has served that connection, marks it free. A reservation
is lost when the connection never comes to the thread: the client is gone before
it connects, its connection is refused because the server was not initialised, or
it is aborted before it is accepted. What is lost stays lost.

## Main results

* `Tracks`: what a step does to the reservations that are held
* `step_tracks`: it is so for every step
* `noLeak_iff`: a run has leaked no server exactly if none of its steps loses a
  reservation
-/

namespace UnixLessons.ServicePool

open Text Transition

variable {s t : Pool} {a : Action} {c : ℕ} {i : Fin maxClients}

/-! ### Reservations that are held -/

/-- The client exists, was handed the server, or is about to be, and has not
connected yet. -/
def Expected (s : Pool) (i : Fin maxClients) (c : ℕ) : Prop :=
  (s.client c).vanished = false ∧
    (s.mainAt.client = some c ∧ s.mainAt.found = some i ∨
      (s.client c).pc = .waiting ∧ (s.client c).inbox = some (endpoint (portOf i)) ∨
      (s.client c).pc = .handed (portOf i))

/-- The connection of the client waits at the server or is being served. -/
def Attended (s : Pool) (i : Fin maxClients) (c : ℕ) : Prop :=
  c ∈ s.pending i ∨ (s.threadAt i).client = some c

/-- The reservation will come to the thread of the server, or is there. -/
def Held (s : Pool) (i : Fin maxClients) (c : ℕ) : Prop := Expected s i c ∨ Attended s i c

/-- Every busy server has a connection that waits or is being served, up to the
reset, or was handed to a client that exists and has yet to connect. -/
def NoLeak (s : Pool) : Prop :=
  ∀ i, (s.server i).isBusy = true →
    s.pending i ≠ [] ∨ (s.threadAt i).client ≠ none ∨ ∃ c, Expected s i c

/-- The steps that lose the reservation of the server for the client. -/
def Loses (s : Pool) (i : Fin maxClients) (c : ℕ) : Action → Prop
  /- The server is reserved for a client that is gone. -/
  | .main => s.mainAt = .set c i ∧ (s.client c).vanished = true
  | .vanish c' => c' = c ∧ Expected s i c
  /- Nobody listens on the port of the server. -/
  | .client c' => c' = c ∧ (s.client c).pc = .handed (portOf i) ∧ listener s (portOf i) = none
  /- The connection is gone before it is accepted. -/
  | .abortPending j => j = i ∧ (s.pending i).head? = some c
  | .abortBacklog | .service _ => False

/-- The main thread marks the server for the client. -/
def Reserves (s : Pool) (i : Fin maxClients) (c : ℕ) (a : Action) : Prop :=
  a = .main ∧ s.mainAt = .set c i

theorem endpoint_inj {i j : Fin maxClients} :
    endpoint (portOf i) = endpoint (portOf j) ↔ portOf i = portOf j := by
  refine ⟨fun heq => ?_, congrArg endpoint⟩
  have hparse := parseEndpoint_portOf i
  rw [heq, parseEndpoint_portOf] at hparse
  simpa using hparse.symm

theorem noServers_ne_endpoint (i : Fin maxClients) : noServers ≠ endpoint (portOf i) := by
  intro heq
  have hnot := not_error_endpoint i
  rw [← heq] at hnot
  exact absurd hnot (by decide)

namespace Exclusive

/-- Only clients a server is reserved for are expected there. -/
theorem reserved_of_expected (h : Exclusive s) (hexpected : Expected s i c) :
    c ∈ s.reserved i := by
  rcases hexpected.2 with ⟨hclient, hfound⟩ | ⟨hpc, hinbox⟩ | hpc
  · exact h.found c i hclient hfound
  · rcases h.inbox c _ hpc hinbox with herror | ⟨j, heq, hres⟩
    · exact absurd herror.symm (noServers_ne_endpoint i)
    · exact portOf_injective (endpoint_inj.mp heq) ▸ hres
  · obtain ⟨j, heq, hres⟩ := h.handed c _ hpc
    exact portOf_injective heq ▸ hres

theorem reserved_of_attended (h : Exclusive s) (hattended : Attended s i c) :
    c ∈ s.reserved i :=
  hattended.elim (fun hpending => (h.pending i c hpending).1) fun hserving =>
    (h.serving i c hserving).1

/-- A client that is expected has not connected. -/
theorem not_connected_of_expected (h : Exclusive s) (hexpected : Expected s i c) :
    (s.client c).pc.isConnected = false := by
  rcases hexpected.2 with ⟨hclient, -⟩ | ⟨hpc, -⟩ | hpc
  · rw [(h.due c hclient).2.1]
    rfl
  · rw [hpc]
    rfl
  · rw [hpc]
    rfl

theorem connected_of_attended (h : Exclusive s) (hattended : Attended s i c) :
    (s.client c).pc.isConnected = true :=
  hattended.elim (fun hpending => (h.pending i c hpending).2.1) fun hserving =>
    (h.serving i c hserving).2

theorem not_attended_of_expected (h : Exclusive s) (hexpected : Expected s i c) :
    ¬ Attended s i c := by
  intro hattended
  have hconn := h.connected_of_attended hattended
  rw [h.not_connected_of_expected hexpected] at hconn
  cases hconn

/-- Nor has a client that has its endpoint and is still to connect. -/
theorem not_attended_of_handed (h : Exclusive s) {port : ℤ}
    (hpc : (s.client c).pc = .handed port) : ¬ Attended s i c := by
  intro hattended
  have hconn := h.connected_of_attended hattended
  rw [hpc] at hconn
  cases hconn

/-- No server has leaked exactly if every reservation is held. -/
theorem noLeak_iff_held (h : Exclusive s) :
    NoLeak s ↔ ∀ i c, c ∈ s.reserved i → Held s i c := by
  constructor
  · intro hno i c hres
    have honly := h.reserved_of_mem hres
    have hbusy : (s.server i).isBusy = true := by
      by_contra hfree
      rw [h.free i (by simpa using hfree)] at hres
      cases hres
    -- Whoever is at the server or on the way to it has the one reservation there is.
    have hsame : ∀ c', c' ∈ s.reserved i → c' = c := fun c' hc' => by
      rwa [honly, List.mem_singleton] at hc'
    rcases hno i hbusy with hpending | hserving | ⟨c', hexpected⟩
    · obtain ⟨c', hc'⟩ := List.exists_mem_of_ne_nil _ hpending
      obtain rfl := hsame c' (h.pending i c' hc').1
      exact .inr (.inl hc')
    · obtain ⟨c', hc'⟩ := Option.ne_none_iff_exists'.mp hserving
      obtain rfl := hsame c' (h.serving i c' hc').1
      exact .inr (.inr hc')
    · obtain rfl := hsame c' (h.reserved_of_expected hexpected)
      exact .inl hexpected
  · intro hall i hbusy
    obtain ⟨c, hc⟩ := h.busy i hbusy
    rcases hall i c (by simp [hc]) with hexpected | hpending | hserving
    · exact .inr (.inr ⟨c, hexpected⟩)
    · exact .inl (List.ne_nil_of_mem hpending)
    · exact .inr (.inl (by simp [hserving]))

end Exclusive

/-! ### What a step does to them -/

/-- The reservations of the next state are held if they were held before or are
made now, and are not lost now; one that is not held does not end. -/
structure Tracks (s : Pool) (a : Action) (t : Pool) : Prop where
  held : ∀ i c, c ∈ t.reserved i →
    (Held t i c ↔ (Held s i c ∨ Reserves s i c a) ∧ ¬ Loses s i c a)
  made : ∀ i c, c ∈ t.reserved i → c ∈ s.reserved i ∨ Reserves s i c a
  stays : ∀ i c, c ∈ s.reserved i → ¬ Held s i c → c ∈ t.reserved i
  lost : ∀ i c, Loses s i c a → c ∈ t.reserved i

namespace Tracks

/-- No reservation is made or lost. -/
theorem same (hreserved : t.reserved = s.reserved) (hreserves : ∀ i c, ¬ Reserves s i c a)
    (hloses : ∀ i c, ¬ Loses s i c a)
    (hheld : ∀ i c, c ∈ s.reserved i → (Held t i c ↔ Held s i c)) : Tracks s a t where
  held i c hres := by
    rw [hheld i c (hreserved ▸ hres)]
    simp [hreserves i c, hloses i c]
  made i c hres := .inl (hreserved ▸ hres)
  stays i c hres _ := hreserved ▸ hres
  lost i c hlost := absurd hlost (hloses i c)

end Tracks

/-- Whether a reservation is held depends on the main thread, the client, the
waiting connections and the thread of the server. -/
theorem held_congr (hmain : t.mainAt.client = some c ∧ t.mainAt.found = some i ↔
      s.mainAt.client = some c ∧ s.mainAt.found = some i)
    (hvanished : (t.client c).vanished = (s.client c).vanished)
    (hpc : (t.client c).pc = (s.client c).pc) (hinbox : (t.client c).inbox = (s.client c).inbox)
    (hattended : Attended t i c ↔ Attended s i c) : Held t i c ↔ Held s i c := by
  rw [Held, Held, hattended, Expected, Expected, hvanished, hpc, hinbox, hmain]

/-! ### The main thread -/

/-- A step of the main thread that finds no server and answers nobody. -/
private theorem main_tracks (hreserved : t.reserved = s.reserved)
    (hset : ∀ c i, s.mainAt ≠ .set c i) (hclient : t.client = s.client)
    (hpending : t.pending = s.pending) (hthread : t.threadAt = s.threadAt)
    (hmain : ∀ i c, t.mainAt.client = some c ∧ t.mainAt.found = some i ↔
      s.mainAt.client = some c ∧ s.mainAt.found = some i) : Tracks s .main t := by
  refine .same hreserved (fun i c hres => hset c i hres.2) (fun i c hlost => hset c i hlost.1)
    fun i c _ => held_congr (hmain i c) ?_ ?_ ?_ ?_
  · rw [hclient]
  · rw [hclient]
  · rw [hclient]
  · rw [Attended, Attended, hpending, hthread]

/-- A server is marked busy for a client. -/
private theorem reserve_tracks (h : Exclusive s) (hmain : s.mainAt = .set c i) :
    Tracks s .main { (s.setBusy i true).mainGoto (.unlockFound c i) with
      reserved := Function.update s.reserved i (s.reserved i ++ [c]) } := by
  have hfree : s.reserved i = [] := h.reserved_of_set hmain
  have hnobody : ∀ c', ¬ Held s i c' := by
    rintro c' (hexpected | hattended)
    · have hres := h.reserved_of_expected hexpected
      rw [hfree] at hres
      cases hres
    · have hres := h.reserved_of_attended hattended
      rw [hfree] at hres
      cases hres
  have hold : s.mainAt.found = none := by rw [hmain]; rfl
  have hnew : (MainPc.unlockFound c i).found = some i := rfl
  constructor
  · intro j c' hres
    by_cases hj : j = i
    · -- The server that is marked now: its client is held if it exists.
      subst hj
      simp only [Function.update_self, hfree, List.nil_append, List.mem_singleton] at hres
      subst hres
      have hattended := not_or.mp (hnobody c')
      simp only [Held, Attended] at hattended ⊢
      simp [Reserves, Loses, hmain, Expected, Pool.mainGoto, Pool.setBusy, MainPc.client,
        MainPc.found, hattended]
    · have hreserves : ¬ Reserves s j c' .main := by
        rintro ⟨-, hset⟩
        rw [hmain] at hset
        exact hj (MainPc.set.inj hset).2.symm
      have hloses : ¬ Loses s j c' .main := by
        rintro ⟨hset, -⟩
        exact hreserves ⟨rfl, hset⟩
      simp only [hreserves, hloses, or_false, not_false_eq_true, and_true]
      refine held_congr ?_ rfl rfl rfl Iff.rfl
      simp [Pool.mainGoto, hold, hnew, Ne.symm hj]
  · intro j c' hres
    by_cases hj : j = i
    · subst hj
      simp only [Function.update_self, hfree, List.nil_append, List.mem_singleton] at hres
      exact .inr ⟨rfl, hres ▸ hmain⟩
    · exact .inl (by simpa [hj] using hres)
  · intro j c' hres _
    by_cases hj : j = i
    · subst hj
      rw [hfree] at hres
      cases hres
    · simpa [hj] using hres
  · rintro j c' ⟨hset, -⟩
    rw [hmain] at hset
    obtain ⟨rfl, rfl⟩ := MainPc.set.inj hset
    simp

/-- The main thread sends an answer: the endpoint it has found, or an error. -/
private theorem answer_tracks (h : Exclusive s) {text : CString} (hdue : s.mainAt.client = some c)
    (hset : ∀ c i, s.mainAt ≠ .set c i)
    (htext : ∀ i, text = endpoint (portOf i) ↔ s.mainAt.found = some i) :
    Tracks s .main ((s.setClient c { s.client c with inbox := some text }).mainGoto .close) := by
  -- the answer itself is the reservation: an endpoint if a server was found
  have hclosed : MainPc.close.client = none := rfl
  refine .same rfl (fun i c hres => hset c i hres.2) (fun i c hlost => hset c i hlost.1)
    fun i c' _ => ?_
  by_cases hc : c' = c
  · -- What the main thread owed the client is in its inbox now.
    subst hc
    have hwaiting := (h.due c' hdue).2
    have hexpected : Expected ((s.setClient c' { s.client c' with inbox := some text }).mainGoto
        .close) i c' ↔ Expected s i c' := by
      simp [Expected, Pool.mainGoto, Pool.setClient, hclosed, hdue, hwaiting.1, hwaiting.2, htext]
    rw [Held, Held, hexpected]
    exact Iff.rfl
  · refine held_congr ?_ ?_ ?_ ?_ Iff.rfl
    · simp [Pool.mainGoto, hclosed, hdue, Ne.symm hc]
    · simp [Pool.mainGoto, Pool.setClient, hc]
    · simp [Pool.mainGoto, Pool.setClient, hc]
    · simp [Pool.mainGoto, Pool.setClient, hc]

private theorem mainStep_tracks (h : Exclusive s) (hstep : mainStep s = some t) :
    Tracks s .main t := by
  unfold mainStep at hstep
  cases hmain : s.mainAt with
  | accept =>
    simp only [hmain] at hstep
    split at hstep
    · cases hstep
    · cases hstep
      exact main_tracks rfl (by simp [hmain]) rfl rfl rfl (by simp [hmain, MainPc.found])
  | lock c k =>
    simp only [hmain] at hstep
    split at hstep
    · split at hstep
      · cases hstep
        exact main_tracks rfl (by simp [hmain]) rfl rfl rfl
          (by simp [hmain, Pool.mainGoto, MainPc.found])
      · cases hstep
    · cases hstep
      exact main_tracks rfl (by simp [hmain]) rfl rfl rfl
        (by simp [hmain, Pool.mainGoto, MainPc.found])
  | test c i =>
    simp only [hmain, Option.some_inj] at hstep
    subst hstep
    split <;> exact main_tracks rfl (by simp [hmain]) rfl rfl rfl
      (by simp [hmain, Pool.mainGoto, MainPc.found])
  | set c i =>
    simp only [hmain, Option.some_inj] at hstep
    exact hstep ▸ reserve_tracks h hmain
  | unlockFound c i =>
    simp only [hmain, Option.some_inj] at hstep
    subst hstep
    exact main_tracks rfl (by simp [hmain]) rfl rfl rfl
      (by simp [hmain, Pool.mainGoto, MainPc.client, MainPc.found])
  | unlockBusy c i =>
    simp only [hmain, Option.some_inj] at hstep
    subst hstep
    exact main_tracks rfl (by simp [hmain]) rfl rfl rfl
      (by simp [hmain, Pool.mainGoto, MainPc.found])
  | send c i =>
    simp only [hmain, Option.some_inj] at hstep
    subst hstep
    -- The text handed out is the endpoint of the slot the search stopped at and of no other.
    refine answer_tracks h (by rw [hmain]; rfl) (by simp [hmain]) fun j => ?_
    rw [h.port, hmain, endpoint_inj, portOf_injective.eq_iff]
    simp [MainPc.found]
  | sendNone c =>
    simp only [hmain, Option.some_inj] at hstep
    subst hstep
    refine answer_tracks h (by rw [hmain]; rfl) (by simp [hmain]) fun j => ?_
    simp [hmain, MainPc.found, noServers_ne_endpoint j]
  | close =>
    simp only [hmain, Option.some_inj] at hstep
    subst hstep
    exact main_tracks rfl (by simp [hmain]) rfl rfl rfl
      (by simp [hmain, Pool.mainGoto, MainPc.found])

/-! ### The service threads -/

/-- A step of a service thread that ends no reservation. -/
private theorem thread_tracks (hreserved : t.reserved = s.reserved) (hmain : t.mainAt = s.mainAt)
    (hclient : ∀ c, (t.client c).vanished = (s.client c).vanished ∧
      (t.client c).pc = (s.client c).pc ∧ (t.client c).inbox = (s.client c).inbox)
    (hattended : ∀ j c, Attended t j c ↔ Attended s j c) : Tracks s (.service i) t :=
  .same hreserved (by simp [Reserves]) (by simp [Loses]) fun j c _ =>
    held_congr (by rw [hmain]) (hclient c).1 (hclient c).2.1 (hclient c).2.2 (hattended j c)

/-- A thread moves on with the client it has, or without one. -/
private theorem attended_threadGoto {pc : ThreadPc} (hclient : pc.client = (s.threadAt i).client)
    (j : Fin maxClients) (c : ℕ) : Attended (s.threadGoto i pc) j c ↔ Attended s j c := by
  by_cases hj : j = i
  · subst hj
    simp [Attended, Pool.threadGoto, hclient]
  · simp [Attended, Pool.threadGoto, hj]

/-- Flags of a client that say nothing about reservations. -/
private theorem client_setClient {x : Client} (hvanished : x.vanished = (s.client c).vanished)
    (hpc : x.pc = (s.client c).pc) (hinbox : x.inbox = (s.client c).inbox) (c' : ℕ) :
    ((s.setClient c x).client c').vanished = (s.client c').vanished ∧
      ((s.setClient c x).client c').pc = (s.client c').pc ∧
      ((s.setClient c x).client c').inbox = (s.client c').inbox := by
  by_cases hc : c' = c
  · subst hc
    simp [Pool.setClient, hvanished, hpc, hinbox]
  · simp [Pool.setClient, hc]

/-- The service thread resets its server after the client it served. -/
private theorem reset_tracks (h : Exclusive s) (hthread : s.threadAt i = .reset c) :
    Tracks s (.service i) { (s.setBusy i false).threadGoto i .unlock with
      reserved := Function.update s.reserved i ((s.reserved i).erase c) } := by
  have hserving : (s.threadAt i).client = some c := by rw [hthread]; rfl
  have honly : s.reserved i = [c] := h.reserved_of_mem (h.serving i c hserving).1
  constructor
  · intro j c' hres
    by_cases hj : j = i
    · subst hj
      simp [honly] at hres
    · have hnot : ¬ Reserves s j c' (.service i) := by simp [Reserves]
      simp only [hnot, or_false, Loses, not_false_eq_true, and_true]
      refine held_congr Iff.rfl rfl rfl rfl ?_
      simp [Attended, Pool.threadGoto, Pool.setBusy, hj]
  · intro j c' hres
    by_cases hj : j = i
    · subst hj
      simp [honly] at hres
    · exact .inl (by simpa [hj] using hres)
  · intro j c' hres hnot
    by_cases hj : j = i
    · -- The only reservation of this server is held by the thread that resets it.
      subst hj
      rw [honly, List.mem_singleton] at hres
      subst hres
      exact absurd (.inr (.inr hserving)) hnot
    · simpa [hj] using hres
  · exact fun _ _ hlost => hlost.elim

private theorem service_tracks (h : Exclusive s) (hstep : serviceServerThread s i = some t) :
    Tracks s (.service i) t := by
  unfold serviceServerThread at hstep
  cases hthread : s.threadAt i with
  | accept =>
    simp only [hthread] at hstep
    split at hstep
    · cases hstep
    · rename_i c pending hpending
      cases hstep
      refine thread_tracks rfl rfl (fun c => ⟨rfl, rfl, rfl⟩) fun j c' => ?_
      by_cases hj : j = i
      · -- The first connection comes to the thread.
        subst hj
        simp [Attended, Pool.threadGoto, hthread, hpending, ThreadPc.client, or_comm, eq_comm]
      · simp [Attended, Pool.threadGoto, hj]
  | read c =>
    simp only [hthread] at hstep
    split at hstep
    · cases hstep
      exact thread_tracks rfl rfl (fun c => ⟨rfl, rfl, rfl⟩)
        (attended_threadGoto (congrArg ThreadPc.client hthread).symm)
    · cases hstep
  -- whether the reply arrives says nothing about the reservation
  | reply c buffer =>
    simp only [hthread] at hstep
    split at hstep
    · cases hstep
      exact thread_tracks rfl rfl (client_setClient rfl rfl rfl)
        (attended_threadGoto (s := s.setClient c { s.client c with replied := true })
          (congrArg ThreadPc.client hthread).symm)
    · cases hstep
      exact thread_tracks rfl rfl (fun c => ⟨rfl, rfl, rfl⟩)
        (attended_threadGoto (congrArg ThreadPc.client hthread).symm)
  | close c =>
    simp only [hthread, Option.some_inj] at hstep
    subst hstep
    exact thread_tracks rfl rfl (client_setClient rfl rfl rfl)
      (attended_threadGoto (s := s.setClient c { s.client c with hungUp := true })
        (congrArg ThreadPc.client hthread).symm)
  | lock c =>
    simp only [hthread] at hstep
    split at hstep
    · cases hstep
      exact thread_tracks rfl rfl (fun c => ⟨rfl, rfl, rfl⟩)
        (attended_threadGoto (congrArg ThreadPc.client hthread).symm)
    · cases hstep
  | reset c =>
    simp only [hthread, Option.some_inj] at hstep
    exact hstep ▸ reset_tracks h hthread
  | unlock =>
    simp only [hthread, Option.some_inj] at hstep
    subst hstep
    exact thread_tracks rfl rfl (fun c => ⟨rfl, rfl, rfl⟩)
      (attended_threadGoto (congrArg ThreadPc.client hthread).symm)

/-! ### The clients -/

/-- The client exists and has the endpoint of the server. -/
def Client.Expects (x : Client) (i : Fin maxClients) : Prop :=
  x.vanished = false ∧
    (x.pc = .waiting ∧ x.inbox = some (endpoint (portOf i)) ∨ x.pc = .handed (portOf i))

/-- The main thread owes nothing to a client that has its answer. -/
private theorem expected_iff (h : Exclusive s) (hgot : ¬ (s.client c).Unanswered)
    (hmain : t.mainAt = s.mainAt) : Expected t i c ↔ (t.client c).Expects i := by
  have hnot : s.mainAt.client ≠ some c := fun hclient => hgot (h.due c hclient).2
  simp [Expected, Client.Expects, hmain, hnot]

/-- A step that is about one client. -/
private theorem client_tracks_of (hreserved : t.reserved = s.reserved)
    (hmain : t.mainAt = s.mainAt) (haction : a ≠ .main)
    (hloses : ∀ i c', Loses s i c' a → c' = c ∧ c ∈ s.reserved i)
    (hother : ∀ c', c' ≠ c → t.client c' = s.client c')
    (hattended : ∀ i c', c' ≠ c → (Attended t i c' ↔ Attended s i c'))
    (hself : ∀ i, c ∈ s.reserved i → (Held t i c ↔ Held s i c ∧ ¬ Loses s i c a)) :
    Tracks s a t where
  held i c' hres := by
    have hreserves : ¬ Reserves s i c' a := fun hreserves => haction hreserves.1
    -- only the client at hand can lose its reservation
    by_cases hc : c' = c
    · subst hc
      rw [hself i (hreserved ▸ hres)]
      simp [hreserves]
    · have hnot : ¬ Loses s i c' a := fun hlost => hc (hloses i c' hlost).1
      have hsame := hother c' hc
      rw [held_congr (by rw [hmain]) (by rw [hsame]) (by rw [hsame]) (by rw [hsame])
        (hattended i c' hc)]
      simp [hreserves, hnot]
  made i c' hres := .inl (hreserved ▸ hres)
  stays i c' hres _ := hreserved ▸ hres
  lost i c' hlost := by
    obtain ⟨rfl, hres⟩ := hloses i c' hlost
    exact hreserved ▸ hres

/-- A client moves on and neither connects nor fails to. -/
private theorem client_tracks (h : Exclusive s) {x : Client} {backlog : List ℕ}
    (hgot : ¬ (s.client c).Unanswered) (hhanded : ∀ port, (s.client c).pc ≠ .handed port)
    (hexpects : ∀ i, x.Expects i ↔ (s.client c).Expects i) :
    Tracks s (.client c) { s.setClient c x with backlog } := by
  apply client_tracks_of (c := c)
  · rfl
  · rfl
  · simp
  · rintro i c' ⟨rfl, hpc, -⟩
    exact absurd hpc (hhanded _)
  · exact fun c' hc => Function.update_of_ne hc _ _
  · exact fun _ _ _ => Iff.rfl
  · intro i _
    have hnot : ¬ Loses s i c (.client c) := fun hlost => hhanded _ hlost.2.1
    have hexpected : Expected { s.setClient c x with backlog } i c ↔ Expected s i c := by
      rw [expected_iff h hgot rfl, ← hexpects i]
      refine (expected_iff h hgot ?_).trans ?_
      · rfl
      · simp [Pool.setClient]
    rw [Held, Held, hexpected, and_iff_left hnot]
    exact Iff.rfl

/-- A client connects to the server it was handed. -/
private theorem connect_tracks (h : Exclusive s) {port : ℤ} {j : Fin maxClients}
    (hvanished : (s.client c).vanished = false) (hpc : (s.client c).pc = .handed port)
    (hlistener : listener s port = some j) :
    Tracks s (.client c) { s.setClient c { s.client c with pc := .connected } with
      pending := Function.update s.pending j (s.pending j ++ [c]) } := by
  have hgot : ¬ (s.client c).Unanswered := Client.answered_of_pc hpc (by simp)
  have hport : port = portOf j := by
    have hfound := List.find?_some hlistener
    simp only [Bool.and_eq_true, beq_iff_eq] at hfound
    exact hfound.2.symm.trans (h.port j)
  have hpending : ∀ i c', c' ∈ Function.update s.pending j (s.pending j ++ [c]) i ↔
      c' ∈ s.pending i ∨ i = j ∧ c' = c := by
    intro i c'
    by_cases hi : i = j
    · subst hi
      simp
    · simp [hi]
  have hloses : ∀ i, ¬ Loses s i c (.client c) := by
    rintro i ⟨-, hat, hnone⟩
    rw [hpc] at hat
    rw [← ClientPc.handed.inj hat, hlistener] at hnone
    cases hnone
  apply client_tracks_of (c := c)
  · rfl
  · rfl
  · simp
  · rintro i c' hlost
    obtain rfl : c = c' := hlost.1
    exact absurd hlost (hloses i)
  · exact fun c' hc => Function.update_of_ne hc _ _
  · intro i c' hc
    simp [Attended, hpending, hc, Pool.setClient]
  · intro i hres
    rw [and_iff_left (hloses i)]
    -- The endpoint was that of the server where the connection waits now.
    have hnot : ¬ Attended s i c := h.not_attended_of_handed hpc
    have hbefore : Expected s i c ↔ i = j := by
      rw [expected_iff h hgot rfl, Client.Expects, hpc, hport, hvanished]
      simp [portOf_injective.eq_iff, eq_comm]
    have hafter : ¬ Expected { s.setClient c { s.client c with pc := .connected } with
        pending := Function.update s.pending j (s.pending j ++ [c]) } i c := by
      refine mt (expected_iff h hgot ?_).mp ?_
      · rfl
      · simp [Client.Expects, Pool.setClient]
    rw [Held, Held, or_iff_left hnot, or_iff_right hafter, hbefore]
    rw [Attended, hpending]
    simp only [Attended, not_or] at hnot
    simp [hnot, Pool.setClient]

/-- The server was not initialised, and the client gives up. -/
private theorem refused_tracks (h : Exclusive s) {port : ℤ} {x : Client}
    (hvanished : (s.client c).vanished = false) (hpc : (s.client c).pc = .handed port)
    (hlistener : listener s port = none) (hx : x.pc = .failed) :
    Tracks s (.client c) (s.setClient c x) := by
  have hgot : ¬ (s.client c).Unanswered := Client.answered_of_pc hpc (by simp)
  apply client_tracks_of (c := c)
  · rfl
  · rfl
  · simp
  · rintro i c' ⟨rfl, hat, -⟩
    refine ⟨rfl, ?_⟩
    apply h.reserved_of_expected
    rw [expected_iff h hgot rfl]
    exact ⟨hvanished, .inr hat⟩
  · exact fun c' hc => Function.update_of_ne hc _ _
  · exact fun _ _ _ => Iff.rfl
  · intro i hres
    have hnot : ¬ Attended s i c := h.not_attended_of_handed hpc
    have hafter : ¬ Expected (s.setClient c x) i c := by
      refine mt (expected_iff h hgot ?_).mp ?_
      · rfl
      · simp [Client.Expects, Pool.setClient, hx]
    rw [Held, Held, or_iff_left hnot, or_iff_right hafter, expected_iff h hgot rfl,
      Client.Expects, hpc]
    -- Either the port is another one or the reservation is lost now.
    constructor
    · exact fun hattended => absurd hattended hnot
    · rintro ⟨⟨-, ⟨hwaiting, -⟩ | hat⟩, hkept⟩
      · cases hwaiting
      · exact absurd ⟨rfl, hpc.trans hat, ClientPc.handed.inj hat ▸ hlistener⟩ hkept

private theorem clientStep_tracks (h : Exclusive s) (hvanished : (s.client c).vanished = false)
    (hstep : clientStep s c = some t) : Tracks s (.client c) t := by
  unfold clientStep at hstep
  cases hpc : (s.client c).pc with
  | start =>
    simp only [hpc, Option.some_inj] at hstep
    subst hstep
    refine client_tracks h (Client.answered_of_pc hpc (by simp)) (by simp [hpc]) fun i => ?_
    simp [Client.Expects, hpc, h.fresh c hpc]
  | waiting =>
    simp only [hpc] at hstep
    cases hinbox : (s.client c).inbox with
    | none => simp [hinbox] at hstep
    | some buffer =>
      have hgot : ¬ (s.client c).Unanswered := Client.answered_of_inbox hinbox
      simp only [hinbox] at hstep
      rcases h.inbox c buffer hpc hinbox with rfl | ⟨j, rfl, -⟩
      · -- An error: there is no server for this client.
        rw [if_pos (by decide)] at hstep
        cases hstep
        refine client_tracks h hgot (by simp [hpc]) fun i => ?_
        simp [Client.Expects, hpc, hinbox, noServers_ne_endpoint i]
      · rw [not_error_endpoint, if_neg (by decide), parseEndpoint_portOf] at hstep
        cases hstep
        refine client_tracks h hgot (by simp [hpc]) fun i => ?_
        simp [Client.Expects, hpc, hinbox, endpoint_inj, portOf_injective.eq_iff]
  | handed port =>
    simp only [hpc] at hstep
    split at hstep
    · cases hstep
      exact refused_tracks h hvanished hpc ‹_› rfl
    · cases hstep
      exact connect_tracks h hvanished hpc ‹_›
  | connected =>
    simp only [hpc, Option.some_inj] at hstep
    subst hstep
    refine client_tracks h (Client.answered_of_pc hpc (by simp)) (by simp [hpc]) fun i => ?_
    simp [Client.Expects, hpc]
  | asked =>
    simp only [hpc] at hstep
    split at hstep
    · cases hstep
      refine client_tracks h (Client.answered_of_pc hpc (by simp)) (by simp [hpc]) fun i => ?_
      simp [Client.Expects, hpc]
    · cases hstep
  | refused => simp [hpc] at hstep
  | failed => simp [hpc] at hstep
  | done => simp [hpc] at hstep

/-- A client is gone. -/
private theorem vanish_tracks (h : Exclusive s) :
    Tracks s (.vanish c) (s.setClient c { s.client c with vanished := true }) := by
  apply client_tracks_of (c := c)
  · rfl
  · rfl
  · simp
  · rintro i c' ⟨rfl, hexpected⟩
    exact ⟨rfl, h.reserved_of_expected hexpected⟩
  · exact fun c' hc => Function.update_of_ne hc _ _
  · exact fun _ _ _ => Iff.rfl
  · intro i _
    have hafter : ¬ Expected (s.setClient c { s.client c with vanished := true }) i c := by
      simp [Expected, Pool.setClient]
    have hattended : Attended (s.setClient c { s.client c with vanished := true }) i c ↔
        Attended s i c := Iff.rfl
    rw [Held, Held, or_iff_right hafter, hattended]
    simp only [Loses, true_and]
    constructor
    · exact fun hat => ⟨.inr hat, fun hexpected => h.not_attended_of_expected hexpected hat⟩
    · rintro ⟨hheld, hnot⟩
      exact hheld.resolve_left hnot

/-! ### Lost connections -/

/-- A connection is gone before it is accepted. -/
private theorem abortPending_tracks (h : Exclusive s) {pending : List ℕ}
    (hthread : s.threadAt i = .accept) (hpending : s.pending i = c :: pending) :
    Tracks s (.abortPending i)
      ({ s with pending := Function.update s.pending i pending }.setClient c
        { s.client c with hungUp := true }) := by
  have hc : c ∈ s.pending i := by simp [hpending]
  obtain ⟨hres, hconn, -⟩ := h.pending i c hc
  have hnotin : c ∉ pending := by
    have hnodup := h.pendingNodup i
    rw [hpending] at hnodup
    exact (List.nodup_cons.mp hnodup).1
  have hclient := client_setClient (c := c) (x := { s.client c with hungUp := true })
    (s := { s with pending := Function.update s.pending i pending }) rfl rfl rfl
  constructor
  · intro j c' hc'
    by_cases hj : j = i
    · -- The only reservation of the server was that of the connection.
      subst hj
      have honly : s.reserved j = [c] := h.reserved_of_mem hres
      obtain rfl : c' = c := List.mem_singleton.mp (honly ▸ hc')
      have hloses : Loses s j c' (.abortPending j) := ⟨rfl, by rw [hpending]; rfl⟩
      simp only [hloses, not_true_eq_false, and_false, iff_false]
      rintro (⟨hvanished, hexpected⟩ | hattended)
      · rw [(hclient c').1] at hvanished
        refine h.not_attended_of_expected (i := j) (c := c') ⟨hvanished, ?_⟩ (.inl hc)
        rwa [(hclient c').2.1, (hclient c').2.2] at hexpected
      · simp only [Attended, Pool.setClient, Function.update_self, hthread] at hattended
        rcases hattended with hmem | hserving
        · exact hnotin hmem
        · cases hserving
    · have hreserves : ¬ Reserves s j c' (.abortPending i) := by simp [Reserves]
      have hloses : ¬ Loses s j c' (.abortPending i) := fun hlost => hj hlost.1.symm
      simp only [hreserves, hloses, or_false, not_false_eq_true, and_true]
      refine held_congr Iff.rfl (hclient c').1 (hclient c').2.1 (hclient c').2.2 ?_
      simp [Attended, Pool.setClient, hj]
  · exact fun _ _ hres => .inl hres
  · exact fun _ _ hres _ => hres
  · rintro j c' ⟨rfl, hhead⟩
    rw [hpending] at hhead
    obtain rfl : c = c' := by simpa using hhead
    exact hres

/-! ### All steps -/

theorem step_tracks (h : Exclusive s) (hstep : step s a = some t) : Tracks s a t := by
  cases a with
  | main => exact mainStep_tracks h hstep
  | abortBacklog =>
    simp only [step, abortBacklog] at hstep
    split at hstep
    · rename_i c backlog _ _
      cases hstep
      have hclient := client_setClient (s := { s with backlog }) (c := c)
        (x := { s.client c with hungUp := true }) rfl rfl rfl
      exact .same rfl (by simp [Reserves]) (by simp [Loses])
        fun i c' _ => held_congr Iff.rfl (hclient c').1 (hclient c').2.1 (hclient c').2.2 Iff.rfl
    · cases hstep
  | service i =>
    simp only [step] at hstep
    split at hstep
    · exact service_tracks h hstep
    · cases hstep
  | abortPending i =>
    simp only [step, abortPending] at hstep
    split at hstep
    · split at hstep
      · cases hstep
        exact abortPending_tracks h ‹_› ‹_›
      · cases hstep
    · cases hstep
  | client c =>
    simp only [step] at hstep
    split at hstep
    · cases hstep
    · rename_i hvanished
      exact clientStep_tracks h (by simpa using hvanished) hstep
  | vanish c =>
    cases hstep
    exact vanish_tracks h

/-! ### The main result -/

/-- No step of the run loses a reservation. -/
def Keeps (s : Pool) (a : Action) : Prop := ∀ i c, ¬ Loses s i c a

/-- A server has leaked once a step has lost its reservation, and from then on. -/
theorem step_noLeak_iff (h : Exclusive s) (hstep : step s a = some t) :
    NoLeak t ↔ NoLeak s ∧ Keeps s a := by
  have htracks := step_tracks h hstep
  rw [(Exclusive.preserved h hstep).noLeak_iff_held, h.noLeak_iff_held]
  constructor
  · intro hheld
    refine ⟨fun i c hres => ?_, fun i c hlost => ?_⟩
    · by_contra hnot
      have hres' := htracks.stays i c hres hnot
      rcases ((htracks.held i c hres').mp (hheld i c hres')).1 with hbefore | ⟨-, hset⟩
      · exact hnot hbefore
      · -- A server that is marked now had no reservation.
        rw [h.reserved_of_set hset] at hres
        cases hres
    · have hres' := htracks.lost i c hlost
      exact ((htracks.held i c hres').mp (hheld i c hres')).2 hlost
  · rintro ⟨hheld, hkeeps⟩ i c hres'
    have hbefore := (htracks.made i c hres').imp_left (hheld i c)
    exact (htracks.held i c hres').mpr ⟨hbefore, hkeeps i c⟩

/-- The pool has leaked no server in a run exactly if no step of the run has lost
a reservation. A step does so when the main thread marks a server for a client
that is gone, when a client is gone before it has connected to the server it was
handed, when the server it connects to was not initialised, and when its
connection is aborted before it is accepted. -/
theorem noLeak_iff {outcome : Fin maxClients → InitOutcome} {acts : List Action}
    (hrun : run step (initServers outcome) acts = some s) :
    NoLeak s ↔ Along step Keeps (initServers outcome) acts := by
  have hstart : NoLeak (initServers outcome) := by
    intro i hbusy
    simp [initServers, initServer] at hbusy
  have hstep : ∀ ⦃s a t⦄, Exclusive s → step s a = some t →
      Exclusive t ∧ (NoLeak t ↔ NoLeak s ∧ Keeps s a) :=
    fun s a t h hstep => ⟨Exclusive.preserved h hstep, step_noLeak_iff h hstep⟩
  rw [along_iff hstep (Exclusive.initServers outcome) hrun, and_iff_right hstart]

/-- A client is handed the first server, connects to it and is served. -/
def oneServed : List Action :=
  .client 0 :: List.replicate 7 .main ++ List.replicate 3 (.client 0) ++
    List.replicate 7 (.service ⟨0, Nat.succ_pos 2⟩)

theorem noLeak_iff_oneServed :
    ∃ s, run step (initServers fun _ => .ok) oneServed = some s ∧
      (NoLeak s ↔ Along step Keeps (initServers fun _ => .ok) oneServed) ∧
      ∀ i, (s.server i).isBusy = false := by
  have hend : (run step (initServers fun _ => .ok) oneServed).map
      (fun s => decide (∀ i, (s.server i).isBusy = false)) = some true := by decide
  obtain ⟨s, hrun, hs⟩ := Option.map_eq_some_iff.mp hend
  exact ⟨s, hrun, noLeak_iff hrun, by simpa using hs⟩

/-- Three clients are handed a server each and are gone. A fourth one asks. -/
def allVanish : List Action :=
  [.client 0, .client 1, .client 2] ++ List.replicate 30 .main ++
    [.vanish 0, .vanish 1, .vanish 2, .client 3] ++ List.replicate 12 .main

theorem not_noLeak_allVanish :
    ∃ s, run step (initServers fun _ => .ok) allVanish = some s ∧
      (s.client 3).inbox = some noServers ∧ ¬ NoLeak s := by
  have hend : (run step (initServers fun _ => .ok) allVanish).map
      (fun s => ((s.client 3).inbox, s.reserved ⟨0, Nat.succ_pos 2⟩,
        s.pending ⟨0, Nat.succ_pos 2⟩, s.threadAt ⟨0, Nat.succ_pos 2⟩, (s.client 0).vanished)) =
      some (some noServers, [0], [], .accept, true) := by decide
  obtain ⟨s, hrun, hs⟩ := Option.map_eq_some_iff.mp hend
  obtain ⟨hinbox, hreserved, hpending, hthread, hvanished⟩ := by
    simpa only [Prod.mk.injEq] using hs
  refine ⟨s, hrun, hinbox, fun hno => ?_⟩
  have hsound : Exclusive s := Exclusive.reachable (Reachable.of_run rfl hrun)
  -- The first server is still reserved for the first client.
  rcases hsound.noLeak_iff_held.mp hno ⟨0, Nat.succ_pos 2⟩ 0 (by simp [hreserved]) with
    ⟨hexists, -⟩ | hmem | hserving
  · rw [hvanished] at hexists
    cases hexists
  · rw [hpending] at hmem
    cases hmem
  · rw [hthread] at hserving
    cases hserving

end UnixLessons.ServicePool

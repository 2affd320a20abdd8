import UnixLessons.OneShot.Moves

/-!
# Clients and their endpoints

Each client waits in line once, is accepted once and is sent the endpoint of one
thread. The ports of threads with a bound socket differ. Both hold in every run,
whatever fails.

## Main results

* `Invited`: clients in line, and what those who were sent an endpoint know
* `Apart`: no two bound sockets have the same port
* `Sound.preserved`: both hold in every run
-/

namespace UnixLessons.OneShot

open Text Transition
open ServicePool (endpoint parseEndpoint parseEndpoint_endpoint)

variable {s t u : Server} {a : Action} {c k l : ℕ} {th : Service} {ok : Bool}

/-! ### What a step leaves of the threads -/

/-- The port of thread `k`. -/
def Server.port (s : Server) (k : ℕ) : Option ℤ := s.threads[k]?.map Service.servicePort

theorem port_eq_some {port : ℤ} :
    s.port k = some port ↔ ∃ th, s.threads[k]? = some th ∧ th.servicePort = port :=
  Option.map_eq_some_iff

/-- The threads of `s` are still there, with their ports. -/
def SamePorts (s t : Server) : Prop := ∀ k port, s.port k = some port → t.port k = some port

theorem SamePorts.of_eq (h : t.threads = s.threads) : SamePorts s t := by
  intro l port hport
  rwa [Server.port, h]

theorem SamePorts.of_set (th' : Service) (hk : s.threads[k]? = some th)
    (hport : th'.servicePort = th.servicePort) (h : t.threads = s.threads.set k th') :
    SamePorts s t := by
  intro l port hl
  obtain ⟨x, hx, rfl⟩ := port_eq_some.mp hl
  rw [port_eq_some, h]
  by_cases hlk : l = k
  · subst hlk
    have hlt : l < s.threads.length := (List.getElem?_eq_some_iff.mp hk).1
    obtain rfl := Option.some.inj (hk.symm.trans hx)
    exact ⟨th', List.getElem?_set_self hlt, hport⟩
  · exact ⟨x, by rw [List.getElem?_set_ne (Ne.symm hlk), hx], rfl⟩

theorem SamePorts.of_append {more : List Service} (h : t.threads = s.threads ++ more) :
    SamePorts s t := by
  intro l port hl
  obtain ⟨x, hx, rfl⟩ := port_eq_some.mp hl
  have hlt : l < s.threads.length := (List.getElem?_eq_some_iff.mp hx).1
  exact port_eq_some.mpr ⟨x, by rw [h, List.getElem?_append_left hlt, hx], rfl⟩

/-- A thread of a list with one thread set is this one or another one. -/
theorem getElem?_set_cases {threads : List Service} {th' x : Service}
    (h : (threads.set k th')[l]? = some x) :
    (l = k ∧ x = th') ∨ (l ≠ k ∧ threads[l]? = some x) := by
  by_cases hl : l = k
  · subst hl
    have hlt : l < threads.length := by simpa using (List.getElem?_eq_some_iff.mp h).1
    rw [List.getElem?_set_self hlt] at h
    exact .inl ⟨rfl, (Option.some.inj h).symm⟩
  · rw [List.getElem?_set_ne (Ne.symm hl)] at h
    exact .inr ⟨hl, h⟩

/-- A thread of a list with one more is that one or an earlier one. -/
theorem getElem?_concat_cases {threads : List Service} {th' x : Service}
    (h : (threads ++ [th'])[l]? = some x) :
    (l = threads.length ∧ x = th') ∨ threads[l]? = some x := by
  by_cases hl : l < threads.length
  · rw [List.getElem?_append_left hl] at h
    exact .inr h
  · rw [List.getElem?_append_right (Nat.le_of_not_lt hl)] at h
    obtain ⟨hlast, hx⟩ := List.getElem?_eq_some_iff.mp h
    simp only [List.length_singleton] at hlast
    have hx' : x = th' := by simpa using hx.symm
    exact .inl ⟨by omega, hx'⟩

/-- What a step does to the list of threads: a thread is changed, or created with
the next port, which is used up even if the creation fails. A thread becomes bound
only to a port that is free. -/
inductive ThreadsMove (s t : Server) : Prop
  | same (threads : t.threads = s.threads) (current : t.currentPort = s.currentPort)
  | unused (threads : t.threads = s.threads) (room : s.currentPort < maxInt)
      (current : t.currentPort = s.currentPort + 1)
  | set (k : ℕ) (th th' : Service) (thread : s.threads[k]? = some th)
      (threads : t.threads = s.threads.set k th') (port : th'.servicePort = th.servicePort)
      (bound : th'.pc.bound = true → th.pc.bound = true ∨ s.taken th.servicePort = false)
      (current : t.currentPort = s.currentPort)
  | more (threads : t.threads = s.threads ++ [⟨s.currentPort, .socket, [], false⟩])
      (room : s.currentPort < maxInt) (current : t.currentPort = s.currentPort + 1)

theorem step_threads (hstep : step s a = some t) : ThreadsMove s t := by
  cases a with
  | main =>
    simp only [step, mainStep] at hstep
    split at hstep
    · split at hstep
      · cases hstep
      · cases hstep
        exact .same rfl rfl
    · cases hstep
    · obtain ⟨th, -, rfl⟩ := Option.map_eq_some_iff.mp hstep
      exact .same rfl rfl
    · cases hstep
      exact .same rfl rfl
    · split at hstep
      · cases hstep
        exact .same rfl rfl
      · rename_i k _ _
        obtain ⟨th, hth, rfl⟩ := Option.map_eq_some_iff.mp hstep
        exact .set k th _ hth rfl rfl .inl rfl
    · cases hstep
      exact .same rfl rfl
    · obtain ⟨k, -, hjoin⟩ := Option.bind_eq_some_iff.mp hstep
      split at hjoin
      · cases hjoin
        exact .same rfl rfl
      · cases hjoin
    · cases hstep
      exact .same rfl rfl
    · cases hstep
  | create ok =>
    simp only [step, create] at hstep
    split at hstep
    · split at hstep
      -- the port is used up whether there is a thread or not
      · rename_i hlt
        split at hstep
        · cases hstep
          exact .more (by simp) hlt rfl
        · cases hstep
          exact .unused rfl hlt rfl
      · cases hstep
    · cases hstep
  | abortBacklog =>
    simp only [step, abortBacklog] at hstep
    split at hstep
    · cases hstep
      exact .same rfl rfl
    · cases hstep
  | service k ok =>
    obtain ⟨th, th', hth, hmove⟩ := step_service hstep
    exact .set k th th' hth (by rw [hmove.eq]) hmove.port hmove.bound (by rw [hmove.eq])
  | client c =>
    cases (step_client hstep).2 with
    | connects port k th _ _ hth => exact .set k th _ hth rfl rfl .inl rfl
    | _ => exact .same rfl rfl
  | vanish c =>
    cases hstep
    exact .same rfl rfl

theorem samePorts_of_step (hstep : step s a = some t) : SamePorts s t := by
  cases step_threads hstep with
  | same hthreads | unused hthreads => exact .of_eq hthreads
  | set k th th' hk hthreads hport => exact .of_set th' hk hport hthreads
  | more hthreads => exact .of_append hthreads

/-! ### The ports -/

/-- The ports that were used are numbers an `int` can hold. -/
structure InRange (s : Server) : Prop where
  current : firstPort ≤ s.currentPort ∧ s.currentPort ≤ maxInt
  port : ∀ th ∈ s.threads, firstPort ≤ th.servicePort ∧ th.servicePort ≤ maxInt

/-- No two bound sockets have the same port, except for the ports the kernel chose. -/
def Apart (s : Server) : Prop :=
  ∀ (k l : ℕ) (th th' : Service), s.threads[k]? = some th → s.threads[l]? = some th' →
    th.pc.bound = true → th'.pc.bound = true → htons th.servicePort ≠ 0 →
    htons th.servicePort = htons th'.servicePort → k = l

/-- The threads of `t` that are bound were so in `s`, with these ports. -/
theorem Apart.frame (h : Apart s)
    (hthreads : ∀ (k : ℕ) (th : Service), t.threads[k]? = some th → th.pc.bound = true →
      ∃ th' : Service, s.threads[k]? = some th' ∧ th'.pc.bound = true ∧
        th'.servicePort = th.servicePort) :
    Apart t := by
  intro k l th th' hk hl hbound hbound' hzero heq
  obtain ⟨x, hx, hxbound, hxport⟩ := hthreads k th hk hbound
  obtain ⟨y, hy, hybound, hyport⟩ := hthreads l th' hl hbound'
  exact h k l x y hx hy hxbound hybound (by rwa [hxport]) (by rw [hxport, hyport, heq])

theorem Apart.of_eq (h : Apart s) (hthreads : t.threads = s.threads) : Apart t :=
  h.frame fun _ th hth hbound => ⟨th, by rw [← hthreads, hth], hbound, rfl⟩

/-- A thread is set that is bound only if it was so before. -/
theorem Apart.of_set (h : Apart s) {th' : Service} (hk : s.threads[k]? = some th)
    (hport : th'.servicePort = th.servicePort) (hbound : th'.pc.bound = true → th.pc.bound = true)
    (hthreads : t.threads = s.threads.set k th') : Apart t := by
  apply h.frame
  intro l x hx hxbound
  rw [hthreads] at hx
  rcases getElem?_set_cases hx with ⟨rfl, rfl⟩ | ⟨-, hx⟩
  · exact ⟨th, hk, hbound hxbound, hport.symm⟩
  · exact ⟨x, hx, hxbound, rfl⟩

/-- `bind` gives the thread a port no other socket has. -/
theorem Apart.bind (h : Apart s) {th' : Service} (hk : s.threads[k]? = some th)
    (hport : th'.servicePort = th.servicePort) (hfree : s.taken th.servicePort = false)
    (hthreads : t.threads = s.threads.set k th') : Apart t := by
  have hother : ∀ (l : ℕ) (x : Service), s.threads[l]? = some x → x.pc.bound = true →
      htons th.servicePort ≠ 0 → htons x.servicePort ≠ htons th.servicePort := by
    intro l x hx hbound hzero heq
    have hmem : x ∈ s.threads := List.mem_of_getElem? hx
    have htaken : s.taken th.servicePort = true := by
      simp only [Server.taken, Bool.and_eq_true, bne_iff_ne, ne_eq, hzero, not_false_eq_true,
        Bool.or_eq_true, List.any_eq_true, beq_iff_eq, true_and]
      exact .inr ⟨x, hmem, hbound, heq⟩
    rw [hfree] at htaken
    cases htaken
  intro i j x y hi hj hxbound hybound hzero heq
  rw [hthreads] at hi hj
  -- one of the two is the thread that is bound now, or none is
  rcases getElem?_set_cases hi with ⟨rfl, rfl⟩ | ⟨-, hi'⟩ <;>
    rcases getElem?_set_cases hj with ⟨rfl, rfl⟩ | ⟨-, hj'⟩
  · rfl
  · rw [hport] at hzero heq
    exact absurd heq.symm (hother j y hj' hybound hzero)
  · rw [hport] at heq
    exact absurd heq (hother i x hi' hxbound (by rwa [← heq]))
  · exact h i j x y hi' hj' hxbound hybound hzero heq

theorem Apart.preserved : Preserved step Apart := by
  intro s a t h hstep
  cases step_threads hstep with
  | same hthreads | unused hthreads => exact h.of_eq hthreads
  | set k th th' hk hthreads hport hbound =>
    -- either this is the `bind` of a free port, or the thread was bound before
    by_cases hfree : s.taken th.servicePort = false
    · exact h.bind hk hport hfree hthreads
    · exact h.of_set hk hport (fun hx => (hbound hx).resolve_right hfree) hthreads
  | more hthreads =>
    apply h.frame
    intro l x hx hxbound
    rw [hthreads] at hx
    rcases getElem?_concat_cases hx with ⟨-, rfl⟩ | hx
    -- The new thread has no socket yet.
    · cases hxbound
    · exact ⟨x, hx, hxbound, rfl⟩

theorem InRange.preserved : Preserved step InRange := by
  intro s a t h hstep
  obtain ⟨hcurrent, hports⟩ := h
  cases step_threads hstep with
  | same hthreads hstays => exact ⟨by rwa [hstays], by rwa [hthreads]⟩
  | unused hthreads hroom hnext => exact ⟨by rw [hnext]; omega, by rwa [hthreads]⟩
  | set k th th' hk hthreads hport _ hstays =>
    refine ⟨by rwa [hstays], fun x hx => ?_⟩
    rw [hthreads] at hx
    rcases List.mem_or_eq_of_mem_set hx with hx | rfl
    · exact hports x hx
    · rw [hport]
      exact hports th (List.mem_of_getElem? hk)
  | more hthreads hroom hnext =>
    refine ⟨by rw [hnext]; omega, fun x hx => ?_⟩
    rw [hthreads] at hx
    rcases List.mem_append.mp hx with hx | hx
    · exact hports x hx
    · obtain rfl := List.mem_singleton.mp hx
      exact ⟨hcurrent.1, hroom.le⟩

/-- The client reads a port as it was printed. -/
theorem parse_endpoint {port : ℤ} (hlow : firstPort ≤ port) (hhigh : port ≤ maxInt) :
    parseEndpoint (endpoint port) = some ("127.0.0.1".toList, port) := by
  unfold firstPort at hlow
  unfold maxInt at hhigh
  exact parseEndpoint_endpoint (by omega) (by omega)

theorem InRange.parse (h : InRange s) {port : ℤ} (hk : s.port k = some port) :
    parseEndpoint (endpoint port) = some ("127.0.0.1".toList, port) := by
  obtain ⟨th, hth, rfl⟩ := port_eq_some.mp hk
  obtain ⟨hlow, hhigh⟩ := h.port th (List.mem_of_getElem? hth)
  exact parse_endpoint hlow hhigh

/-! ### Clients in line -/

/-- The client the main thread has accepted and not answered yet. -/
def MainPc.client : MainPc → List ℕ
  | .create c | .send c _ => [c]
  | _ => []

/-- The clients that wait to be answered. -/
def Server.queue (s : Server) : List ℕ := s.mainAt.client ++ s.backlog

/-- Those that were sent an endpoint, and behind them those that wait. -/
def Server.line (s : Server) : List ℕ := s.handed.map Handover.client ++ s.queue

/-- The client has connected to a service thread. -/
def ClientPc.isConnected : ClientPc → Bool
  | .connected | .asked | .done => true
  | _ => false

/-- The client was sent the endpoint with this port and goes by it. -/
structure Told (x : Client) (port : ℤ) : Prop where
  inbox : x.inbox = some (endpoint port)
  pc : x.pc = .waiting ∨ x.pc = .handed port ∨ x.pc = .failed ∨ x.pc.isConnected = true

/-- A client is in line once, waits there, and is sent the port of a thread. -/
structure Invited (s : Server) : Prop where
  nodup : s.line.Nodup
  started : ∀ c ∈ s.line, (s.client c).pc ≠ .start
  waiting : s.mainAt ≠ .exited → ∀ c ∈ s.queue,
    (s.client c).pc = .waiting ∧ (s.client c).closed = false
  untouched : ∀ c, (s.client c).pc = .start → (s.client c).closed = false
  closing : ∀ c k, s.mainAt = .close c k → c ∈ s.handed.map Handover.client
  told : ∀ h ∈ s.handed, ∃ port, s.port h.thread = some port ∧ Told (s.client h.client) port
  known : ∀ c, (s.client c).inbox ≠ none → c ∈ s.handed.map Handover.client
  handed : ∀ c port, (s.client c).pc = .handed port → (s.client c).inbox ≠ none

namespace Invited

theorem start : Invited start := by
  constructor <;> simp [OneShot.start, Server.line, Server.queue, MainPc.client]

theorem notMem_queue (h : Invited s) (hc : c ∈ s.handed.map Handover.client) : c ∉ s.queue :=
  fun hqueue => List.disjoint_of_nodup_append h.nodup hc hqueue

/-- Nobody joins the line, and the connection of a client that has left it may be
closed. -/
theorem frame (h : Invited s) (hports : SamePorts s t) (hhanded : t.handed = s.handed)
    (hqueue : t.queue.Sublist s.queue) (hexited : s.mainAt = .exited → t.mainAt = .exited)
    (hclosing : ∀ c k, t.mainAt = .close c k → s.mainAt = .close c k)
    (hpc : ∀ c, (t.client c).pc = (s.client c).pc)
    (hinbox : ∀ c, (t.client c).inbox = (s.client c).inbox)
    (hclosed : ∀ c, (t.client c).closed = (s.client c).closed ∨ (c ∈ s.line ∧ c ∉ t.queue)) :
    Invited t := by
  have hline : t.line.Sublist s.line := by
    rw [Server.line, Server.line, hhanded]
    exact hqueue.append_left _
  refine ⟨h.nodup.sublist hline, ?_, ?_, ?_, ?_, ?_, ?_, ?_⟩
  · intro c hc
    rw [hpc]
    exact h.started c (hline.subset hc)
  -- a client that still waits was not among those that may be closed
  · intro hrunning c hc
    obtain ⟨hwaiting, hopen⟩ := h.waiting (fun hat => hrunning (hexited hat)) c (hqueue.subset hc)
    rw [hpc]
    exact ⟨hwaiting, ((hclosed c).resolve_right fun hleft => hleft.2 hc).trans hopen⟩
  · intro c hc
    rw [hpc] at hc
    rcases hclosed c with heq | ⟨hleft, -⟩
    · rw [heq]
      exact h.untouched c hc
    · exact absurd hc (h.started c hleft)
  · intro c k hat
    rw [hhanded]
    exact h.closing c k (hclosing c k hat)
  · intro x hx
    rw [hhanded] at hx
    obtain ⟨port, hport, htold⟩ := h.told x hx
    exact ⟨port, hports _ _ hport, by rw [hinbox]; exact htold.inbox, by rw [hpc]; exact htold.pc⟩
  · intro c hc
    rw [hinbox] at hc
    rw [hhanded]
    exact h.known c hc
  · intro c port hc
    rw [hpc] at hc
    rw [hinbox]
    exact h.handed c port hc

/-- A client that does not wait in line moves on. -/
theorem moveClient (h : Invited s) {x : Client} (hports : SamePorts s t)
    (hhanded : t.handed = s.handed) (hbacklog : t.backlog = s.backlog)
    (hmain : t.mainAt = s.mainAt) (hclient : t.client = Function.update s.client c x)
    (hstart : x.pc ≠ .start) (hinbox : x.inbox = (s.client c).inbox)
    (hqueue : s.mainAt ≠ .exited → c ∉ s.queue)
    (htold : ∀ k port, s.port k = some port → Told (s.client c) port → Told x port)
    (hknown : ∀ port, x.pc = .handed port → x.inbox ≠ none) : Invited t := by
  have hsame : t.queue = s.queue := by rw [Server.queue, Server.queue, hmain, hbacklog]
  have hline : t.line = s.line := by rw [Server.line, Server.line, hhanded, hsame]
  refine ⟨by rw [hline]; exact h.nodup, ?_, ?_, ?_, ?_, ?_, ?_, ?_⟩ <;>
    simp only [hline, hsame, hmain, hhanded, hclient]
  · intro d hd
    rcases eq_or_ne d c with rfl | hne
    · simpa using hstart
    · rw [Function.update_of_ne hne]
      exact h.started d hd
  -- the client itself does not wait in line
  · intro hrunning d hd
    have hne : d ≠ c := fun heq => hqueue hrunning (heq ▸ hd)
    rw [Function.update_of_ne hne]
    exact h.waiting hrunning d hd
  · intro d hd
    rcases eq_or_ne d c with rfl | hne
    · exact absurd hd (by simpa using hstart)
    · rw [Function.update_of_ne hne] at hd ⊢
      exact h.untouched d hd
  · exact h.closing
  · intro y hy
    obtain ⟨port, hport, hytold⟩ := h.told y hy
    refine ⟨port, hports _ _ hport, ?_⟩
    rcases eq_or_ne y.client c with heq | hne
    · rw [heq] at hytold ⊢
      simpa using htold _ _ hport hytold
    · rwa [Function.update_of_ne hne]
  · intro d hd
    rcases eq_or_ne d c with rfl | hne
    · rw [Function.update_self, hinbox] at hd
      exact h.known d hd
    · rw [Function.update_of_ne hne] at hd
      exact h.known d hd
  · intro d port hd
    rcases eq_or_ne d c with rfl | hne
    · rw [Function.update_self] at hd ⊢
      exact hknown port hd
    · rw [Function.update_of_ne hne] at hd ⊢
      exact h.handed d port hd

/-- A client that has not connected to the main server is not in line yet, and joins
it at its end. -/
theorem asks (h : Invited s) (hpc : (s.client c).pc = .start) (hports : SamePorts s t)
    (hhanded : t.handed = s.handed) (hmain : t.mainAt = s.mainAt)
    (hbacklog : t.backlog = s.backlog ++ [c])
    (hclient : t.client = Function.update s.client c { s.client c with pc := .waiting }) :
    Invited t := by
  have hnew : c ∉ s.line := fun hc => h.started c hc hpc
  have hqueue : t.queue = s.queue ++ [c] := by
    rw [Server.queue, hmain, hbacklog, ← List.append_assoc]
    rfl
  have hline : t.line = s.line ++ [c] := by
    rw [Server.line, hhanded, hqueue, ← List.append_assoc]
    rfl
  refine ⟨?_, ?_, ?_, ?_, by rw [hmain, hhanded]; exact h.closing, ?_, ?_, ?_⟩ <;>
    simp only [hline, hqueue, hmain, hhanded, hclient]
  · rw [List.nodup_append_comm]
    exact List.nodup_cons.mpr ⟨hnew, h.nodup⟩
  · intro d hd
    rcases eq_or_ne d c with rfl | hne
    · simp
    · rw [Function.update_of_ne hne]
      exact h.started d (by simpa [hne] using hd)
  · intro hrunning d hd
    rcases eq_or_ne d c with rfl | hne
    · simpa using h.untouched d hpc
    · rw [Function.update_of_ne hne]
      exact h.waiting hrunning d (by simpa [hne] using hd)
  · intro d hd
    rcases eq_or_ne d c with rfl | hne
    · simp at hd
    · rw [Function.update_of_ne hne] at hd ⊢
      exact h.untouched d hd
  -- nobody was sent an endpoint before joining the line
  · intro y hy
    have hne : y.client ≠ c := fun heq =>
      hnew (List.mem_append_left _ (heq ▸ List.mem_map_of_mem hy))
    obtain ⟨port, hport, htold⟩ := h.told y hy
    rw [Function.update_of_ne hne]
    exact ⟨port, hports _ _ hport, htold⟩
  · intro d hd
    rcases eq_or_ne d c with rfl | hne
    · exact h.known d (by simpa using hd)
    · rw [Function.update_of_ne hne] at hd
      exact h.known d hd
  · intro d port hd
    rcases eq_or_ne d c with rfl | hne
    · simp at hd
    · rw [Function.update_of_ne hne] at hd ⊢
      exact h.handed d port hd

/-- A client that is past the line moves on. -/
private theorem notWaiting (h : Invited s) (hpc : (s.client c).pc ≠ .waiting) :
    s.mainAt ≠ .exited → c ∉ s.queue :=
  fun hrunning hc => hpc (h.waiting hrunning c hc).1

theorem clientStep (h : Invited s) (hrange : InRange s) (hmove : ClientMove s c t)
    (hports : SamePorts s t) : Invited t := by
  cases hmove with
  | asks hpc => exact h.asks hpc hports rfl rfl rfl rfl
  | learnsNothing hpc hinbox hgone =>
    refine h.moveClient hports rfl rfl rfl rfl (by simp) rfl ?_ ?_ (by simp)
    -- Whoever waits in line has an open connection while the server runs.
    · intro hrunning hc
      rcases hgone with hclosed | hexited
      · rw [(h.waiting hrunning c hc).2] at hclosed
        cases hclosed
      · exact hrunning hexited
    · intro k port _ htold
      exact absurd (hinbox.symm.trans htold.inbox) (by simp)
  | reads buffer hpc hinbox =>
    refine h.moveClient hports rfl rfl rfl rfl ?_ rfl (fun _ => ?_) ?_ ?_
    · dsimp only
      split <;> simp
    · exact h.notMem_queue (h.known c (by simp [hinbox]))
    · rintro k port hport ⟨heq, -⟩
      rw [hinbox, Option.some.injEq] at heq
      subst heq
      exact ⟨hinbox, by simp [hrange.parse hport]⟩
    · intro port _
      simp [hinbox]
  | refused port hpc =>
    refine h.moveClient hports rfl rfl rfl rfl (by simp) rfl (h.notWaiting (by simp [hpc])) ?_
      (by simp)
    exact fun _ _ _ htold => ⟨htold.inbox, by simp⟩
  | connects port k th hpc =>
    refine h.moveClient hports rfl rfl rfl rfl (by simp) rfl (h.notWaiting (by simp [hpc])) ?_
      (by simp)
    exact fun _ _ _ htold => ⟨htold.inbox, by simp [ClientPc.isConnected]⟩
  | talks x hbefore hafter hinbox =>
    refine h.moveClient hports rfl rfl rfl rfl ?_ hinbox (h.notWaiting ?_) ?_ ?_
    · rcases hafter with hpc | hpc <;> simp [hpc]
    · rcases hbefore with hpc | hpc <;> simp [hpc]
    · intro k port _ htold
      refine ⟨hinbox.trans htold.inbox, ?_⟩
      rcases hafter with hpc | hpc <;> simp [hpc, ClientPc.isConnected]
    · rintro port hport
      rcases hafter with hpc | hpc <;> simp [hpc] at hport

/-- The endpoint of a thread is sent to the client at hand. -/
theorem send (h : Invited s) (hat : s.mainAt = .send c k) (hk : s.threads[k]? = some th)
    {ready : Bool} (hports : SamePorts s t) (hhanded : t.handed = s.handed ++ [⟨c, k, ready⟩])
    (hmain : t.mainAt = .close c k) (hbacklog : t.backlog = s.backlog)
    (hclient : t.client = Function.update s.client c
      { s.client c with inbox := some (endpoint th.servicePort) }) : Invited t := by
  -- the client moves from those that wait to those that were sent an endpoint, so the
  -- line as a whole does not change
  have hbefore : s.queue = c :: s.backlog := by simp [Server.queue, hat, MainPc.client]
  have hqueue : t.queue = s.backlog := by simp [Server.queue, hmain, MainPc.client, hbacklog]
  have hline : t.line = s.line := by simp [Server.line, hqueue, hhanded, hbefore]
  have hpc : ∀ d, (t.client d).pc = (s.client d).pc := by
    intro d
    rw [hclient]
    rcases eq_or_ne d c with rfl | hne
    · simp
    · rw [Function.update_of_ne hne]
  have hclosed : ∀ d, (t.client d).closed = (s.client d).closed := by
    intro d
    rw [hclient]
    rcases eq_or_ne d c with rfl | hne
    · simp
    · rw [Function.update_of_ne hne]
  refine ⟨?_, ?_, ?_, ?_, ?_, ?_, ?_, ?_⟩ <;> simp only [hline, hqueue, hhanded, hpc, hclosed]
  · exact h.nodup
  · exact h.started
  · rintro - d hd
    exact h.waiting (by simp [hat]) d (by rw [hbefore]; exact List.mem_cons_of_mem c hd)
  · exact h.untouched
  · rintro d l heq
    rw [hmain] at heq
    cases heq
    simp
  · intro y hy
    rw [hclient]
    rcases List.mem_append.mp hy with hy | hy
    -- an earlier handover is to another client
    · obtain ⟨port, hport, htold⟩ := h.told y hy
      have hne : y.client ≠ c := fun heq =>
        h.notMem_queue (List.mem_map_of_mem hy) (by simp [hbefore, heq])
      rw [Function.update_of_ne hne]
      exact ⟨port, hports _ _ hport, htold⟩
    · obtain rfl := List.mem_singleton.mp hy
      refine ⟨th.servicePort, hports _ _ (port_eq_some.mpr ⟨th, hk, rfl⟩), by simp, ?_⟩
      rw [Function.update_self]
      exact .inl (h.waiting (by simp [hat]) c (by simp [hbefore])).1
  · intro d hd
    rw [hclient] at hd
    rcases eq_or_ne d c with rfl | hne
    · simp
    · rw [Function.update_of_ne hne] at hd
      rw [List.map_append]
      exact List.mem_append_left _ (h.known d hd)
  · intro d port hd
    rw [hclient]
    rcases eq_or_ne d c with rfl | hne
    · simp
    · rw [Function.update_of_ne hne]
      exact h.handed d port hd

/-- The main thread closes the connection of a client that has left the line. -/
theorem close (h : Invited s) (hports : SamePorts s t) (hhanded : t.handed = s.handed)
    (hqueue : t.queue.Sublist s.queue) (hexited : s.mainAt = .exited → t.mainAt = .exited)
    (hclosing : ∀ c k, t.mainAt = .close c k → s.mainAt = .close c k)
    (hclient : t.client = Function.update s.client c { s.client c with closed := true })
    (hline : c ∈ s.line) (hleft : c ∉ t.queue) : Invited t := by
  apply h.frame hports hhanded hqueue hexited hclosing <;> intro d <;> rw [hclient] <;>
    rcases eq_or_ne d c with rfl | hne
  · simp
  · rw [Function.update_of_ne hne]
  · simp
  · rw [Function.update_of_ne hne]
  · exact .inr ⟨hline, hleft⟩
  · exact .inl (by rw [Function.update_of_ne hne])

/-- The main thread goes on, and the same clients wait. -/
theorem goesOn (h : Invited s) (hports : SamePorts s t) (hrunning : s.mainAt ≠ .exited)
    (hhanded : t.handed = s.handed) (hqueue : t.queue = s.queue) (hclient : t.client = s.client)
    (hclosing : ∀ c k, t.mainAt ≠ .close c k) : Invited t := by
  apply h.frame hports hhanded
  · rw [hqueue]
  · exact fun hat => absurd hat hrunning
  · exact fun c k hat => absurd hat (hclosing c k)
  · exact fun c => by rw [hclient]
  · exact fun c => by rw [hclient]
  · exact fun c => .inl (by rw [hclient])

theorem mainStep (h : Invited s) (hports : SamePorts s t) (hstep : mainStep s = some t) :
    Invited t := by
  unfold OneShot.mainStep at hstep
  cases hmain : s.mainAt with
  | accept =>
    simp only [hmain] at hstep
    split at hstep
    · cases hstep
    · rename_i c backlog hbacklog
      cases hstep
      -- the client that is accepted is still the first in line
      apply h.goesOn hports (by simp [hmain]) rfl _ rfl (by simp)
      simp [Server.queue, hmain, hbacklog, MainPc.client]
  | create c => simp [hmain] at hstep
  | send c k =>
    simp only [hmain] at hstep
    obtain ⟨th, hth, rfl⟩ := Option.map_eq_some_iff.mp hstep
    exact h.send hmain hth hports rfl rfl rfl rfl
  | close c k =>
    simp only [hmain, Option.some.injEq] at hstep
    subst hstep
    have hc : c ∈ s.handed.map Handover.client := h.closing c k hmain
    have hqueue : s.queue = s.backlog := by simp [Server.queue, hmain, MainPc.client]
    have hleft : c ∉ s.backlog := hqueue ▸ h.notMem_queue hc
    refine h.close hports rfl ?_ (by simp [hmain]) (by simp [Server.mainGoto]) rfl
      (List.mem_append_left _ hc) hleft
    rw [hqueue]
    exact List.Sublist.refl _
  -- from here on no client is at hand before or after the step
  | keep k =>
    simp only [hmain] at hstep
    split at hstep
    · cases hstep
      apply h.goesOn hports (by simp [hmain]) rfl _ rfl (by simp)
      simp [Server.queue, hmain, MainPc.client]
    · obtain ⟨th, hth, rfl⟩ := Option.map_eq_some_iff.mp hstep
      apply h.goesOn hports (by simp [hmain]) rfl _ rfl (by simp [Server.mainGoto])
      simp [Server.queue, Server.mainGoto, Server.setThread, hmain, MainPc.client]
  | count =>
    simp only [hmain, Option.some.injEq] at hstep
    subst hstep
    apply h.goesOn hports (by simp [hmain]) rfl _ rfl
    · dsimp only
      split <;> simp
    · rw [Server.queue, Server.queue, hmain]
      dsimp only
      split <;> rfl
  | join =>
    simp only [hmain] at hstep
    obtain ⟨k, hk, hjoin⟩ := Option.bind_eq_some_iff.mp hstep
    split at hjoin
    · cases hjoin
      apply h.goesOn hports (by simp [hmain]) rfl _ rfl (by simp [Server.mainGoto])
      simp [Server.queue, Server.mainGoto, hmain, MainPc.client]
    · cases hjoin
  | report =>
    simp only [hmain, Option.some.injEq] at hstep
    subst hstep
    apply h.goesOn hports (by simp [hmain]) rfl _ rfl (by simp [Server.mainGoto])
    simp [Server.queue, Server.mainGoto, hmain, MainPc.client]
  | exited => simp [hmain] at hstep

/-- A thread is created for the client at hand, or the client is turned away. -/
theorem create (h : Invited s) (hports : SamePorts s t) (hstep : create s ok = some t) :
    Invited t := by
  unfold OneShot.create at hstep
  split at hstep
  · rename_i c hmain
    have hqueue : s.queue = c :: s.backlog := by simp [Server.queue, hmain, MainPc.client]
    split at hstep
    · split at hstep
      · cases hstep
        apply h.goesOn hports (by simp [hmain]) rfl _ rfl (by simp)
        simp [Server.queue, hmain, MainPc.client]
      · -- without a thread the client leaves the line
        cases hstep
        have hleft : c ∉ s.backlog := by
          have hnodup : s.queue.Nodup := h.nodup.of_append_right
          rw [hqueue] at hnodup
          exact (List.nodup_cons.mp hnodup).1
        refine h.close hports rfl ?_ (by simp [hmain]) (by simp [Server.mainGoto]) rfl
          (List.mem_append_right _ (by simp [hqueue])) hleft
        rw [hqueue]
        exact List.sublist_cons_self c s.backlog
    · cases hstep
  · cases hstep

/-- The head of the line is dropped. -/
theorem abortBacklog (h : Invited s) (hports : SamePorts s t)
    (hstep : abortBacklog s = some t) : Invited t := by
  unfold OneShot.abortBacklog at hstep
  split at hstep
  · rename_i c backlog hmain hbacklog
    cases hstep
    have hqueue : s.queue = c :: backlog := by simp [Server.queue, hmain, hbacklog, MainPc.client]
    have hnodup : s.queue.Nodup := h.nodup.of_append_right
    rw [hqueue] at hnodup
    have hafter : Server.queue ({ s with backlog }.setClient c
        { s.client c with closed := true }) = backlog := by
      simp [Server.queue, Server.setClient, hmain, MainPc.client]
    refine h.close hports rfl ?_ (fun hat => hat) (fun _ _ hat => hat) rfl
      (List.mem_append_right _ (by simp [hqueue])) ?_ <;> rw [hafter]
    · rw [hqueue]
      exact List.sublist_cons_self c backlog
    · exact (List.nodup_cons.mp hnodup).1
  · cases hstep

theorem next (h : Invited s) (hrange : InRange s) (hstep : step s a = some t) : Invited t := by
  have hports : SamePorts s t := samePorts_of_step hstep
  cases a with
  | main => exact h.mainStep hports hstep
  | create ok => exact h.create hports hstep
  | abortBacklog => exact h.abortBacklog hports hstep
  | service k ok =>
    obtain ⟨th, th', hth, hmove⟩ := step_service hstep
    have hmain : t.mainAt = s.mainAt := by rw [hmove.eq]
    have hqueue : t.queue = s.queue := by rw [hmove.eq]; rfl
    apply h.frame hports _ _ (fun hat => hmain.trans hat) (fun _ _ hat => hmain.symm.trans hat)
      hmove.pc hmove.inbox fun c => .inl (hmove.closed c)
    · rw [hmove.eq]
    · rw [hqueue]
  | client c => exact h.clientStep hrange (step_client hstep).2 hports
  | vanish c =>
    cases hstep
    apply h.frame hports rfl (List.Sublist.refl _) (fun hat => hat) (fun _ _ hat => hat) <;>
      intro d <;> simp only [Server.setClient] <;> rcases eq_or_ne d c with rfl | hne
    · simp
    · rw [Function.update_of_ne hne]
    · simp
    · rw [Function.update_of_ne hne]
    · simp
    · simp [Function.update_of_ne hne]

end Invited

/-- What holds of the line, the ports and the sockets in every run. -/
structure Sound (s : Server) : Prop where
  range : InRange s
  apart : Apart s
  invited : Invited s

theorem Sound.preserved : Preserved step Sound := fun _ _ _ h hstep =>
  ⟨InRange.preserved h.range hstep, Apart.preserved h.apart hstep, h.invited.next h.range hstep⟩

theorem Sound.start : Sound start where
  range := ⟨by decide, by simp [OneShot.start]⟩
  apart := by simp [Apart, OneShot.start]
  invited := .start

end UnixLessons.OneShot

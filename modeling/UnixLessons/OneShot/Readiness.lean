import UnixLessons.OneShot.Ending
import UnixLessons.OneShot.Invitations

/-!
# Can a client connect to the endpoint it is sent?

The main thread sends the endpoint right after `pthread_create`, and nothing makes
it wait for the new thread. The client can connect if the thread was fast enough
and its calls succeed, and if thread and process are still there when it tries.

## Main results

* `Prepared`: the threads of clients that have not connected yet wait for them
* `connectable_of_prompt`: a condition on the steps of a run under which every
  endpoint can be connected to
-/

namespace UnixLessons.OneShot

open Text Transition
open ServicePool (endpoint parseEndpoint)

variable {s t u : Server} {a : Action} {c k l : ℕ} {th : Service} {ok : Bool}

/-- Every endpoint was sent while its thread took connections, and nobody's connect
was refused. -/
structure Connectable (s : Server) : Prop where
  ready : ∀ h ∈ s.handed, h.ready = true
  unfailed : ∀ c, (s.client c).pc ≠ .failed

/-- The thread has not come to its `accept` yet. -/
def ThreadPc.starting : ThreadPc → Bool
  | .socket | .bind | .listen => true
  | _ => false

theorem not_starting {pc : ThreadPc} (h : pc.listening = true) : pc.starting = false := by
  cases pc <;> simp [ThreadPc.listening, ThreadPc.starting] at h ⊢

theorem bound_of_listening {pc : ThreadPc} (h : pc.listening = true) : pc.bound = true := by
  cases pc <;> simp [ThreadPc.listening, ThreadPc.bound] at h ⊢

/-- The client has connected to its thread, or will never do so. -/
def Client.settled (x : Client) : Bool := x.vanished || x.pc.isConnected

/-- Some client was sent the endpoint of thread `k` and is settled. -/
def Server.Settled (s : Server) (k : ℕ) : Prop :=
  ∃ h ∈ s.handed, h.thread = k ∧ (s.client h.client).settled = true

instance (s : Server) (k : ℕ) : Decidable (s.Settled k) :=
  inferInstanceAs (Decidable (∃ h ∈ s.handed, _))

/-- The main thread sends an endpoint after the three calls of the new thread, and
the process ends after the clients have connected. -/
def MainPrompt (s : Server) : MainPc → Prop
  | .send _ k => s.threads[k]?.any (·.pc.starting) = false
  | .report => ∀ h ∈ s.handed, (s.client h.client).settled = true
  | _ => True

instance (s : Server) : ∀ pc, Decidable (MainPrompt s pc)
  | .send _ _ => inferInstanceAs (Decidable (_ = _))
  | .report => inferInstanceAs (Decidable (∀ h ∈ s.handed, _))
  | .accept | .create _ | .close _ _ | .keep _ | .count | .join | .exited =>
    inferInstanceAs (Decidable True)

/-- What the order of the steps and the outcomes of the calls have to be like, for
the main thread and
* in a successful `pthread_create`: a client that is still there is not given the
  port zero, which 65536 is;
* in a call of a service thread that fails: its client has connected. -/
def Prompt (s : Server) : Action → Prop
  | .main => MainPrompt s s.mainAt
  | .create ok =>
    ok = true → ∀ c ∈ s.mainAt.client, (s.client c).vanished = true ∨ htons s.currentPort ≠ 0
  | .service k ok =>
    ok = false → s.threads[k]?.any (·.pc.starting) = false ∧
      (s.threads[k]?.any (·.pc == .accept) = true → s.Settled k)
  | _ => True

instance (s : Server) : ∀ a, Decidable (Prompt s a)
  | .main => inferInstanceAs (Decidable (MainPrompt _ _))
  | .create _ => inferInstanceAs (Decidable (_ → ∀ c ∈ s.mainAt.client, _))
  | .service _ _ => inferInstanceAs (Decidable (_ → _ ∧ (_ → _)))
  | .abortBacklog | .client _ | .vanish _ => inferInstanceAs (Decidable True)

/-! ### Threads whose clients have yet to connect -/

/-- The endpoint of thread `k` is about to be sent, or was sent to a client that is
not settled. -/
def Server.Awaited (s : Server) (k : ℕ) : Prop :=
  (∃ c, s.mainAt = .send c k) ∨
    ∃ h ∈ s.handed, h.thread = k ∧ (s.client h.client).settled = false

/-- Thread `k` was created for client `c`. -/
def Server.Promised (s : Server) (c k : ℕ) : Prop :=
  s.mainAt = .send c k ∨ ∃ h ∈ s.handed, h.client = c ∧ h.thread = k

/-- The thread has accepted nobody and nobody has connected to it. -/
structure Service.Unserved (th : Service) : Prop where
  pending : th.pending = []
  pc : th.pc.starting = true ∨ th.pc = .accept

structure Prepared (s : Server) : Prop where
  ready : ∀ h ∈ s.handed, h.ready = true
  unfailed : ∀ c, (s.client c).pc ≠ .failed
  starting : ∀ (k : ℕ) (th : Service), s.threads[k]? = some th → th.pc.starting = true →
    ∃ c, s.mainAt = .send c k
  awaited : ∀ k, s.Awaited k → ∃ th, s.threads[k]? = some th ∧ th.Unserved
  promised : ∀ c k, s.Promised c k →
    (s.client c).vanished = true ∨ ∃ port, s.port k = some port ∧ htons port ≠ 0
  running : ∀ h ∈ s.handed, (s.client h.client).settled = false → s.mainAt ≠ .exited

/-- One thread is set, and waits for its client as it did. -/
theorem unserved_set {threads : List Service} {th' y : Service} (hk : threads[k]? = some th)
    (hth : th.Unserved → th'.Unserved) (hl : threads[l]? = some y) (hy : y.Unserved) :
    ∃ x, (threads.set k th')[l]? = some x ∧ x.Unserved := by
  by_cases hlk : l = k
  · subst hlk
    have hlt : l < threads.length := (List.getElem?_eq_some_iff.mp hk).1
    obtain rfl := Option.some.inj (hk.symm.trans hl)
    exact ⟨th', List.getElem?_set_self hlt, hth hy⟩
  · exact ⟨y, by rw [List.getElem?_set_ne (Ne.symm hlk), hl], hy⟩

/-- Each thread was handed out once. -/
theorem Counted.handed_inj (h : Counted s) {x y : Handover} (hx : x ∈ s.handed)
    (hy : y ∈ s.handed) (heq : x.thread = y.thread) : x = y := by
  have hnodup : (s.handed.map Handover.thread).Nodup := by
    rw [h.handed]
    exact List.nodup_range
  exact List.inj_on_of_nodup_map hnodup hx hy heq

/-- The thread whose endpoint is about to be sent was not handed out before. -/
theorem Counted.thread_ne (h : Counted s) (hmain : s.mainAt = .send c k) {x : Handover}
    (hx : x ∈ s.handed) : x.thread ≠ k := by
  have hk : k = s.clientsServed := h.current k (by rw [hmain]; rfl)
  have hmem : x.thread ∈ s.handed.map Handover.thread := List.mem_map_of_mem hx
  rw [h.handed, hmain, List.mem_range] at hmem
  simp only [MainPc.sent] at hmem
  omega

namespace Prepared

theorem start : Prepared start := by
  constructor <;> simp [OneShot.start, Server.Awaited, Server.Promised]

/-- The rules below keep what has been handed out, and change of the threads that
are awaited at most how far they are on their way to `accept`. -/
theorem frame (h : Prepared s) (hports : SamePorts s t) (hhanded : t.handed = s.handed)
    (hmain : t.mainAt = s.mainAt ∨
      (∀ c k, s.mainAt ≠ .send c k) ∧ ∀ c k, t.mainAt ≠ .send c k)
    (hexited : t.mainAt = .exited → s.mainAt = .exited ∨
      ∀ x ∈ s.handed, (s.client x.client).settled = true)
    (hsettled : ∀ c, (s.client c).settled = true → (t.client c).settled = true)
    (hvanished : ∀ c, (s.client c).vanished = true → (t.client c).vanished = true)
    (hunfailed : ∀ c, (t.client c).pc ≠ .failed)
    (hstarting : ∀ (k : ℕ) (th : Service), t.threads[k]? = some th → th.pc.starting = true →
      ∃ th', s.threads[k]? = some th' ∧ th'.pc.starting = true)
    (hawaited : ∀ (k : ℕ) (th : Service), t.Awaited k → s.threads[k]? = some th → th.Unserved →
      ∃ th', t.threads[k]? = some th' ∧ th'.Unserved) : Prepared t := by
  -- whoever is about to be sent an endpoint was so before the step
  have hsend : ∀ c k, t.mainAt = .send c k → s.mainAt = .send c k := by
    intro c k hat
    rcases hmain with hmain | ⟨-, hnot⟩
    · rwa [← hmain]
    · exact absurd hat (hnot c k)
  have hunsettled : ∀ c, (t.client c).settled = false → (s.client c).settled = false := by
    intro c hc
    rw [Bool.eq_false_iff] at hc ⊢
    exact fun hbefore => hc (hsettled c hbefore)
  refine ⟨by rw [hhanded]; exact h.ready, hunfailed, ?_, ?_, ?_, ?_⟩
  -- a thread that is starting was so before, and its endpoint is still to be sent
  · intro k th hk hth
    obtain ⟨th', hk', hth'⟩ := hstarting k th hk hth
    obtain ⟨c, hat⟩ := h.starting k th' hk' hth'
    rcases hmain with hmain | ⟨hnot, -⟩
    · exact ⟨c, hmain.trans hat⟩
    · exact absurd hat (hnot c k)
  · intro k hk
    have hbefore : s.Awaited k := by
      rcases hk with ⟨c, hat⟩ | ⟨x, hx, hthread, hnot⟩
      · exact .inl ⟨c, hsend c k hat⟩
      · exact .inr ⟨x, hhanded ▸ hx, hthread, hunsettled _ hnot⟩
    obtain ⟨th, hth, hunserved⟩ := h.awaited k hbefore
    exact hawaited k th hk hth hunserved
  · intro c k hpromised
    have hbefore : s.Promised c k := by
      rcases hpromised with hat | ⟨x, hx, hcx⟩
      · exact .inl (hsend c k hat)
      · exact .inr ⟨x, hhanded ▸ hx, hcx⟩
    rcases h.promised c k hbefore with hgone | ⟨port, hport, hzero⟩
    · exact .inl (hvanished c hgone)
    · exact .inr ⟨port, hports k port hport, hzero⟩
  -- if the process ends in this step, all clients are settled
  · intro x hx hnot hat
    rw [hhanded] at hx
    rcases hexited hat with hbefore | hall
    · exact h.running x hx (hunsettled _ hnot) hbefore
    · rw [hsettled _ (hall x hx)] at hnot
      cases hnot

/-- The threads and what is known of the clients stay. -/
theorem frame_same (h : Prepared s) (hthreads : t.threads = s.threads)
    (hhanded : t.handed = s.handed)
    (hmain : t.mainAt = s.mainAt ∨
      (∀ c k, s.mainAt ≠ .send c k) ∧ ∀ c k, t.mainAt ≠ .send c k)
    (hexited : t.mainAt = .exited → s.mainAt = .exited ∨
      ∀ x ∈ s.handed, (s.client x.client).settled = true)
    (hsettled : ∀ c, (s.client c).settled = true → (t.client c).settled = true)
    (hvanished : ∀ c, (s.client c).vanished = true → (t.client c).vanished = true)
    (hunfailed : ∀ c, (t.client c).pc ≠ .failed) : Prepared t := by
  apply h.frame (.of_eq hthreads) hhanded hmain hexited hsettled hvanished hunfailed
  · intro k th hk hth
    exact ⟨th, hthreads ▸ hk, hth⟩
  · intro k th _ hk hth
    exact ⟨th, hthreads ▸ hk, hth⟩

/-- What is changed says nothing of who has connected. -/
theorem frame_flags (h : Prepared s) (hthreads : t.threads = s.threads)
    (hhanded : t.handed = s.handed)
    (hmain : t.mainAt = s.mainAt ∨
      (∀ c k, s.mainAt ≠ .send c k) ∧ ∀ c k, t.mainAt ≠ .send c k)
    (hexited : t.mainAt = .exited → s.mainAt = .exited ∨
      ∀ x ∈ s.handed, (s.client x.client).settled = true)
    (hpc : ∀ c, (t.client c).pc = (s.client c).pc)
    (hvanished : ∀ c, (t.client c).vanished = (s.client c).vanished) : Prepared t := by
  apply h.frame_same hthreads hhanded hmain hexited <;> intro c
  · rw [Client.settled, Client.settled, hpc, hvanished]
    exact id
  · rw [hvanished]
    exact id
  · rw [hpc]
    exact h.unfailed c

private theorem close_flags (c d : ℕ) :
    ((s.setClient c { s.client c with closed := true }).client d).pc = (s.client d).pc ∧
      ((s.setClient c { s.client c with closed := true }).client d).vanished =
        (s.client d).vanished := by
  rcases eq_or_ne d c with rfl | hne
  · simp [Server.setClient]
  · simp [Server.setClient, hne]

/-- A client that is awaited has its thread waiting in `accept`. -/
theorem waits (h : Prepared s) (hcounted : Counted s) {x : Handover} (hx : x ∈ s.handed)
    (hnot : (s.client x.client).settled = false) :
    ∃ th, s.threads[x.thread]? = some th ∧ th.pending = [] ∧ th.pc = .accept ∧
      htons th.servicePort ≠ 0 := by
  obtain ⟨th, hth, hpending, hpc⟩ := h.awaited x.thread (.inr ⟨x, hx, rfl, hnot⟩)
  -- a thread that is still starting has not been handed out
  have haccept : th.pc = .accept := by
    refine hpc.resolve_left fun hstarting => ?_
    obtain ⟨c, hmain⟩ := h.starting _ _ hth hstarting
    exact hcounted.thread_ne hmain hx rfl
  refine ⟨th, hth, hpending, haccept, ?_⟩
  rcases h.promised x.client x.thread (.inr ⟨x, hx, rfl, rfl⟩) with hgone | ⟨port, hport, hzero⟩
  · simp [Client.settled, hgone] at hnot
  · obtain ⟨th', hth', rfl⟩ := port_eq_some.mp hport
    obtain rfl := Option.some.inj (hth.symm.trans hth')
    exact hzero

/-- The endpoint of a thread that has made its three calls is sent. -/
theorem send (h : Prepared s) (hat : s.mainAt = .send c k) (hk : s.threads[k]? = some th)
    (hready : th.pc.starting = false) (hthreads : t.threads = s.threads)
    (hhanded : t.handed = s.handed ++ [⟨c, k, s.ready k⟩]) (hmain : t.mainAt = .close c k)
    (hclient : t.client = Function.update s.client c
      { s.client c with inbox := some (endpoint th.servicePort) }) : Prepared t := by
  have hpc : ∀ d, (t.client d).pc = (s.client d).pc := by
    intro d
    rw [hclient]
    rcases eq_or_ne d c with rfl | hne
    · simp
    · rw [Function.update_of_ne hne]
  have hvanished : ∀ d, (t.client d).vanished = (s.client d).vanished := by
    intro d
    rw [hclient]
    rcases eq_or_ne d c with rfl | hne
    · simp
    · rw [Function.update_of_ne hne]
  have hsettled : ∀ d, (t.client d).settled = (s.client d).settled := by
    intro d
    rw [Client.settled, Client.settled, hpc, hvanished]
  have hmem : ∀ x, x ∈ t.handed ↔ x ∈ s.handed ∨ x = ⟨c, k, s.ready k⟩ := by
    simp [hhanded]
  obtain ⟨th', hth', hunserved⟩ := h.awaited k (.inl ⟨c, hat⟩)
  obtain rfl := Option.some.inj (hk.symm.trans hth')
  have haccept : th.pc = .accept := hunserved.pc.resolve_left (by simp [hready])
  refine ⟨?_, fun d => by rw [hpc]; exact h.unfailed d, ?_, ?_, ?_, fun _ _ _ => by simp [hmain]⟩
  · intro x hx
    rcases (hmem x).mp hx with hx | rfl
    · exact h.ready x hx
    · simp [Server.ready, hk, haccept, ThreadPc.listening]
  · intro l y hl hy
    rw [hthreads] at hl
    obtain ⟨d, hd⟩ := h.starting l y hl hy
    -- The only thread that could still be starting is the one at hand.
    rw [hat] at hd
    cases hd
    obtain rfl := Option.some.inj (hk.symm.trans hl)
    rw [hready] at hy
    cases hy
  · intro l hl
    rw [hthreads]
    apply h.awaited
    rcases hl with ⟨d, hd⟩ | ⟨x, hx, hthread, hnot⟩
    · rw [hmain] at hd
      cases hd
    · rw [hsettled] at hnot
      rcases (hmem x).mp hx with hx | rfl
      · exact .inr ⟨x, hx, hthread, hnot⟩
      · exact .inl ⟨c, hthread ▸ hat⟩
  · intro d l hd
    rw [hvanished, Server.port, hthreads]
    apply h.promised
    rcases hd with hd | ⟨x, hx, hcx, hkx⟩
    · rw [hmain] at hd
      cases hd
    · rcases (hmem x).mp hx with hx | rfl
      · exact .inr ⟨x, hx, hcx, hkx⟩
      · rw [← hcx, ← hkx]
        exact .inl hat

theorem mainStep (h : Prepared s) (hprompt : MainPrompt s s.mainAt)
    (hstep : mainStep s = some t) : Prepared t := by
  unfold OneShot.mainStep at hstep
  cases hmain : s.mainAt with
  | accept =>
    simp only [hmain] at hstep
    split at hstep
    · cases hstep
    · cases hstep
      exact h.frame_flags rfl rfl (.inr (by simp [hmain])) (by simp) (fun _ => rfl) fun _ => rfl
  | create c => simp [hmain] at hstep
  | send c k =>
    simp only [hmain] at hstep
    obtain ⟨th, hth, rfl⟩ := Option.map_eq_some_iff.mp hstep
    rw [hmain, MainPrompt, hth] at hprompt
    exact h.send hmain hth hprompt rfl rfl rfl rfl
  | close c k =>
    simp only [hmain, Option.some.injEq] at hstep
    subst hstep
    refine h.frame_flags rfl rfl (.inr (by simp [hmain, Server.mainGoto]))
      (by simp [Server.mainGoto]) (fun d => ?_) fun d => ?_
    · exact (close_flags c d).1
    · exact (close_flags c d).2
  | keep k =>
    simp only [hmain] at hstep
    split at hstep
    · cases hstep
      exact h.frame_flags rfl rfl (.inr (by simp [hmain])) (by simp) (fun _ => rfl) fun _ => rfl
    · obtain ⟨th, hth, rfl⟩ := Option.map_eq_some_iff.mp hstep
      -- To detach the thread is nothing to those who connect to it.
      refine h.frame (.of_set { th with detached := true } hth rfl rfl) rfl
        (.inr (by simp [hmain, Server.mainGoto])) (by simp [Server.mainGoto]) (fun _ hc => hc)
        (fun _ hc => hc) h.unfailed ?_ ?_
      · intro l y hl hy
        rcases getElem?_set_cases hl with ⟨rfl, rfl⟩ | ⟨-, hl⟩
        · exact ⟨th, hth, hy⟩
        · exact ⟨y, hl, hy⟩
      · intro l y _ hl hy
        exact unserved_set hth (fun hth => ⟨hth.pending, hth.pc⟩) hl hy
  | count =>
    simp only [hmain, Option.some.injEq] at hstep
    subst hstep
    refine h.frame_flags rfl rfl (.inr ⟨by simp [hmain], ?_⟩) ?_ (fun _ => rfl) fun _ => rfl
    · dsimp only
      split <;> simp
    · dsimp only
      split <;> simp
  | join =>
    simp only [hmain] at hstep
    obtain ⟨k, hk, hjoin⟩ := Option.bind_eq_some_iff.mp hstep
    split at hjoin
    · cases hjoin
      exact h.frame_flags rfl rfl (.inr (by simp [hmain, Server.mainGoto]))
        (by simp [Server.mainGoto]) (fun _ => rfl) fun _ => rfl
    · cases hjoin
  | report =>
    simp only [hmain, Option.some.injEq] at hstep
    subst hstep
    rw [hmain] at hprompt
    exact h.frame_flags rfl rfl (.inr (by simp [hmain, Server.mainGoto])) (fun _ => .inr hprompt)
      (fun _ => rfl) fun _ => rfl
  | exited => simp [hmain] at hstep

theorem create (h : Prepared s) (hprompt : Prompt s (.create ok))
    (hstep : create s ok = some t) : Prepared t := by
  unfold OneShot.create at hstep
  split at hstep
  · rename_i c hmain
    split at hstep
    · split at hstep
      · rename_i hok
        cases hstep
        simp only [Prompt, hmain, MainPc.client, List.mem_singleton, forall_eq] at hprompt
        have hlast : (s.threads ++ [⟨s.currentPort, .socket, [], false⟩])[s.threads.length]? =
            some ⟨s.currentPort, .socket, [], false⟩ := by simp
        refine ⟨h.ready, h.unfailed, ?_, ?_, ?_, fun _ _ _ => by simp⟩ <;>
          simp only [Int.add_sub_cancel]
        · intro k th hk hth
          rcases getElem?_concat_cases hk with ⟨rfl, -⟩ | hk
          · exact ⟨c, rfl⟩
          · obtain ⟨d, hd⟩ := h.starting k th hk hth
            rw [hmain] at hd
            cases hd
        -- the new thread is awaited by its client, the others as before
        · rintro k (⟨d, hd⟩ | hk)
          · cases hd
            exact ⟨_, hlast, rfl, .inl rfl⟩
          · obtain ⟨th, hth, hunserved⟩ := h.awaited k (.inr hk)
            have hlt : k < s.threads.length := (List.getElem?_eq_some_iff.mp hth).1
            exact ⟨th, by rw [List.getElem?_append_left hlt, hth], hunserved⟩
        -- the new port is not zero if the client is still there
        · rintro d k (hd | hd)
          · cases hd
            refine (hprompt hok).imp_right fun hzero => ⟨s.currentPort, ?_, hzero⟩
            exact port_eq_some.mpr ⟨_, hlast, rfl⟩
          · refine (h.promised d k (.inr hd)).imp_right ?_
            rintro ⟨port, hport, hzero⟩
            obtain ⟨th, hth, rfl⟩ := port_eq_some.mp hport
            have hlt : k < s.threads.length := (List.getElem?_eq_some_iff.mp hth).1
            exact ⟨_, port_eq_some.mpr ⟨th, by
              rw [List.getElem?_append_left hlt, hth], rfl⟩, hzero⟩
      · cases hstep
        refine h.frame_flags rfl rfl (.inr (by simp [hmain, Server.mainGoto]))
          (by simp [Server.mainGoto]) (fun d => ?_) fun d => ?_
        · exact (close_flags c d).1
        · exact (close_flags c d).2
    · cases hstep
  · cases hstep

/-- A thread whose client has yet to connect comes closer to `accept` and stays there. -/
theorem unserved_of_move (hcounted : Counted s) {th' : Service}
    (hprompt : Prompt s (.service k ok)) (hk : s.threads[k]? = some th)
    (hmove : ServiceMove s k th ok th' t) (hawaited : s.Awaited k) (hunserved : th.Unserved) :
    th'.Unserved := by
  obtain ⟨hpending, hpc⟩ := hunserved
  have hkept : th'.pending = [] := by
    rw [← List.suffix_nil, ← hpending]
    exact hmove.pending
  refine ⟨hkept, ?_⟩
  rcases hmove.next with hended | ⟨-, hnext⟩ | ⟨-, hnext, -⟩ | ⟨-, hnext⟩ | ⟨-, hsome, -⟩ |
    ⟨hlistening, hnot, -⟩
  · -- A call has failed, though the client has not connected.
    exfalso
    have hends : th.pc.ends ok = true := hmove.ended.mp hended
    obtain rfl : ok = false := by
      rcases hpc with hpc | hpc
      · cases hat : th.pc <;> simp [hat, ThreadPc.starting, ThreadPc.ends] at hpc hends <;>
          exact hends
      · simpa [hpc, ThreadPc.ends] using hends
    obtain ⟨hstarting, haccept⟩ := hprompt rfl
    simp only [hk, Option.any_some] at hstarting haccept
    have hat : th.pc = .accept := hpc.resolve_left (by simp [hstarting])
    obtain ⟨x, hx, hxk, hsettled⟩ := haccept (by simp [hat])
    rcases hawaited with ⟨c, hmain⟩ | ⟨y, hy, hyk, hnot⟩
    · exact hcounted.thread_ne hmain hx hxk
    · obtain rfl := hcounted.handed_inj hx hy (hxk.trans hyk.symm)
      rw [hsettled] at hnot
      cases hnot
  · exact .inl (by rw [hnext]; rfl)
  · exact .inl (by rw [hnext]; rfl)
  · exact .inr hnext
  · exact absurd hpending hsome
  · rcases hpc with hpc | hpc
    · rw [not_starting hlistening] at hpc
      cases hpc
    · exact absurd hpc hnot

theorem service (h : Prepared s) (hcounted : Counted s) {th' : Service}
    (hprompt : Prompt s (.service k ok)) (hk : s.threads[k]? = some th)
    (hmove : ServiceMove s k th ok th' t) : Prepared t := by
  have hmain : t.mainAt = s.mainAt := by rw [hmove.eq]
  have hhanded : t.handed = s.handed := by rw [hmove.eq]
  have hthreads : t.threads = s.threads.set k th' := by rw [hmove.eq]
  have hsettled : ∀ c, (t.client c).settled = (s.client c).settled := by
    intro c
    rw [Client.settled, Client.settled, hmove.pc, hmove.vanished]
  refine h.frame (.of_set th' hk hmove.port hthreads) hhanded (.inl hmain) ?_ ?_ ?_ ?_ ?_ ?_
  · exact fun hat => .inl (hmain.symm.trans hat)
  · exact fun c hc => (hsettled c).trans hc
  · exact fun c hc => (hmove.vanished c).trans hc
  · intro c
    rw [hmove.pc]
    exact h.unfailed c
  · intro l y hl hy
    rw [hthreads] at hl
    rcases getElem?_set_cases hl with ⟨rfl, rfl⟩ | ⟨-, hl⟩
    · refine ⟨th, hk, ?_⟩
      rcases hmove.next with hnext | ⟨hpc, -⟩ | ⟨hpc, -⟩ | ⟨hpc, -⟩ | ⟨-, -, hnext⟩ | ⟨-, -, hnext⟩
      · simp [hnext, ThreadPc.starting] at hy
      · rw [hpc]; rfl
      · rw [hpc]; rfl
      · rw [hpc]; rfl
      · exact absurd hy (by simp [not_starting hnext])
      · exact absurd hy (by simp [not_starting hnext])
    · exact ⟨y, hl, hy⟩
  · intro l y hl hy hunserved
    rw [hthreads]
    -- only the thread that moves can come past `accept`
    by_cases hlk : l = k
    · subst hlk
      obtain rfl := Option.some.inj (hk.symm.trans hy)
      have hawaited : s.Awaited l := by
        rcases hl with ⟨c, hc⟩ | ⟨x, hx, hxk, hnot⟩
        · exact .inl ⟨c, hmain.symm.trans hc⟩
        · exact .inr ⟨x, hhanded ▸ hx, hxk, (hsettled _).symm.trans hnot⟩
      exact unserved_set hk (unserved_of_move hcounted hprompt hk hmove hawaited) hy hunserved
    · exact ⟨y, by rw [List.getElem?_set_ne (Ne.symm hlk), hy], hunserved⟩

/-- A client moves, but not to or from its thread. -/
theorem moveClient (h : Prepared s) {x : Client} (hthreads : t.threads = s.threads)
    (hhanded : t.handed = s.handed) (hmain : t.mainAt = s.mainAt)
    (hclient : t.client = Function.update s.client c x)
    (hconnected : (s.client c).pc.isConnected = true → x.pc.isConnected = true)
    (hvanished : (s.client c).vanished = true → x.vanished = true) (hpc : x.pc ≠ .failed) :
    Prepared t := by
  apply h.frame_same hthreads hhanded (.inl hmain) fun hat => .inl (hmain.symm.trans hat) <;>
    intro d <;> rw [hclient] <;> rcases eq_or_ne d c with rfl | hne
  · simp only [Client.settled, Bool.or_eq_true, Function.update_self]
    exact Or.imp hvanished hconnected
  · rw [Function.update_of_ne hne]
    exact id
  · rw [Function.update_self]
    exact hvanished
  · rw [Function.update_of_ne hne]
    exact id
  · rw [Function.update_self]
    exact hpc
  · rw [Function.update_of_ne hne]
    exact h.unfailed d

/-- The client that goes by an endpoint finds the thread it belongs to. -/
theorem listener_eq (h : Prepared s) (hcounted : Counted s) (hsound : Sound s) {port : ℤ}
    (hrunning : (s.client c).vanished = false) (hpc : (s.client c).pc = .handed port) :
    ∃ x ∈ s.handed, x.client = c ∧ listener s port = some x.thread := by
  obtain ⟨x, hx, rfl⟩ := List.mem_map.mp (hsound.invited.known c (hsound.invited.handed c port hpc))
  refine ⟨x, hx, rfl, ?_⟩
  have hnot : (s.client x.client).settled = false := by
    simp [Client.settled, hrunning, hpc, ClientPc.isConnected]
  obtain ⟨th, hth, hpending, haccept, hzero⟩ := h.waits hcounted hx hnot
  obtain ⟨port', hport', htold⟩ := hsound.invited.told x hx
  obtain rfl : port' = port := by
    have := htold.pc
    simpa [hpc, ClientPc.isConnected, eq_comm] using this
  obtain ⟨th', hth', rfl⟩ := port_eq_some.mp hport'
  obtain rfl := Option.some.inj (hth.symm.trans hth')
  rw [listener, if_neg (by simp [h.running x hx hnot, hzero]), List.findIdx?_eq_some_iff_getElem]
  obtain ⟨hlt, hat⟩ := List.getElem?_eq_some_iff.mp hth
  refine ⟨hlt, by simp [hat, haccept, ThreadPc.listening], ?_⟩
  -- Another socket that takes connections has another port.
  intro j hj hother
  simp only [Bool.and_eq_true, beq_iff_eq] at hother
  have hjth : s.threads[j]? = some s.threads[j] := List.getElem?_eq_getElem (hj.trans hlt)
  have heq : j = x.thread := hsound.apart j x.thread _ th hjth hth (bound_of_listening hother.1)
    (by rw [haccept]; rfl) (by rw [hother.2]; exact hzero) hother.2
  exact hj.ne heq

theorem connects (h : Prepared s) (hcounted : Counted s) (hsound : Sound s) {port : ℤ}
    (hrunning : (s.client c).vanished = false) (hpc : (s.client c).pc = .handed port)
    (hfound : listener s port = some k) (hk : s.threads[k]? = some th) :
    Prepared ((s.setClient c { s.client c with pc := .connected }).setThread k
      { th with pending := th.pending ++ [c] }) := by
  obtain ⟨x, hx, rfl, hlistener⟩ := h.listener_eq hcounted hsound hrunning hpc
  obtain rfl := Option.some.inj (hlistener.symm.trans hfound)
  have hmoved : Prepared (s.setClient x.client { s.client x.client with pc := .connected }) :=
    h.moveClient rfl rfl rfl rfl (fun _ => rfl) id (by simp)
  refine hmoved.frame (.of_set { th with pending := th.pending ++ [x.client] } hk rfl rfl) rfl
    (.inl rfl) .inl (fun _ => id) (fun _ => id) hmoved.unfailed ?_ ?_
  · intro l y hl hy
    rcases getElem?_set_cases hl with ⟨rfl, rfl⟩ | ⟨-, hl⟩
    · exact ⟨th, hk, hy⟩
    · exact ⟨y, hl, hy⟩
  · intro l y hl hy hunserved
    -- Nobody else waits for the thread: its client is settled now.
    have hne : l ≠ x.thread := by
      rintro rfl
      rcases hl with ⟨d, hd⟩ | ⟨y, hy, hyk, hnot⟩
      · exact hcounted.thread_ne hd hx rfl
      · obtain rfl := hcounted.handed_inj hy hx hyk
        simp [Server.setClient, Server.setThread, Client.settled, ClientPc.isConnected] at hnot
    exact ⟨y, (List.getElem?_set_ne (Ne.symm hne)).trans hy, hunserved⟩

theorem clientStep (h : Prepared s) (hcounted : Counted s) (hsound : Sound s)
    (hrunning : (s.client c).vanished = false) (hmove : ClientMove s c t) : Prepared t := by
  cases hmove with
  | asks hpc | learnsNothing hpc =>
    exact h.moveClient rfl rfl rfl rfl (by simp [hpc, ClientPc.isConnected]) id (by simp)
  | reads buffer hpc =>
    refine h.moveClient rfl rfl rfl rfl (by simp [hpc, ClientPc.isConnected]) id ?_
    dsimp only
    split <;> simp
  -- a prompt thread is there, so nobody is refused
  | refused port hpc hnobody =>
    obtain ⟨x, -, -, hlistener⟩ := h.listener_eq hcounted hsound hrunning hpc
    rw [hnobody] at hlistener
    cases hlistener
  | connects port k th hpc hfound hth =>
    exact h.connects hcounted hsound hrunning hpc hfound hth
  | talks x _ hafter _ hvanished =>
    refine h.moveClient rfl rfl rfl rfl ?_ (by rw [hvanished]; exact id) ?_
    · rcases hafter with hpc | hpc <;> simp [hpc, ClientPc.isConnected]
    · rcases hafter with hpc | hpc <;> simp [hpc]

theorem next (h : Prepared s) (hcounted : Counted s) (hsound : Sound s) (hprompt : Prompt s a)
    (hstep : step s a = some t) : Prepared t := by
  cases a with
  | main => exact h.mainStep hprompt hstep
  | create ok => exact h.create hprompt hstep
  | abortBacklog =>
    simp only [step, abortBacklog] at hstep
    split at hstep
    · rename_i c backlog hmain _
      cases hstep
      exact h.frame_flags rfl rfl (.inl rfl) .inl (fun d => (close_flags c d).1)
        fun d => (close_flags c d).2
    · cases hstep
  | service k ok =>
    obtain ⟨th, th', hth, hmove⟩ := step_service hstep
    exact h.service hcounted hprompt hth hmove
  | client c =>
    obtain ⟨hrunning, hmove⟩ := step_client hstep
    exact h.clientStep hcounted hsound hrunning hmove
  | vanish c =>
    cases hstep
    exact h.moveClient rfl rfl rfl rfl id (fun _ => rfl) (h.unfailed c)

end Prepared

/-- What holds in every run whose steps are prompt. -/
structure Hosted (s : Server) : Prop where
  counted : Counted s
  sound : Sound s
  prepared : Prepared s

theorem Hosted.next (h : Hosted s) (hprompt : Prompt s a) (hstep : step s a = some t) :
    Hosted t :=
  ⟨Counted.preserved h.counted hstep, Sound.preserved h.sound hstep,
    h.prepared.next h.counted h.sound hprompt hstep⟩

theorem hosted_of_prompt {acts : List Action} (hrun : run step start acts = some s)
    (hprompt : Along step Prompt start acts) : Hosted s := by
  exact Along.run (fun _ _ _ => Hosted.next) ⟨.start, .start, .start⟩ hprompt hrun

/-! ### What happens otherwise -/

/-- Prompt steps lead to an endpoint that is sent too early or to a client whose
connect is refused. -/
def Misses (s : Server) : Prop :=
  ∃ acts u, run step s acts = some u ∧ Along step Prompt s acts ∧ ¬ Connectable u

theorem Misses.now (h : ¬ Connectable s) : Misses s := ⟨[], s, rfl, trivial, h⟩

theorem Misses.of_step (hprompt : Prompt s a) (hstep : step s a = some t) (h : Misses t) :
    Misses s := by
  obtain ⟨acts, u, hrun, halong, hnot⟩ := h
  exact ⟨a :: acts, u, run_cons_eq_some.mpr ⟨t, hstep, hrun⟩,
    (along_cons_of_step hstep).mpr ⟨hprompt, halong⟩, hnot⟩

/-- Nobody takes connections to the port the client has read. -/
theorem misses_of_handed {port : ℤ} (hrunning : (s.client c).vanished = false)
    (hpc : (s.client c).pc = .handed port) (hnobody : listener s port = none) : Misses s := by
  have hstep : step s (.client c) = some (s.setClient c { s.client c with pc := .failed }) := by
    simp [step, hrunning, OneShot.clientStep, hpc, hnobody]
  refine .of_step (a := .client c) trivial hstep (.now fun h => h.unfailed c ?_)
  simp [Server.setClient]

/-- Nobody takes connections to the port a client was sent. -/
theorem misses_of_told (port : ℤ) (hrunning : (s.client c).vanished = false)
    (htold : Told (s.client c) port) (hnot : (s.client c).pc.isConnected = false)
    (hparse : parseEndpoint (endpoint port) = some ("127.0.0.1".toList, port))
    (hnobody : listener s port = none) : Misses s := by
  rcases htold.pc with hpc | hpc | hpc | hpc
  · have hstep : step s (.client c) =
        some (s.setClient c { s.client c with pc := .handed port }) := by
      simp [step, hrunning, OneShot.clientStep, hpc, htold.inbox, hparse]
    refine .of_step (a := .client c) trivial hstep (misses_of_handed (c := c) ?_ ?_ hnobody)
    · simpa [Server.setClient] using hrunning
    · simp [Server.setClient]
  · exact misses_of_handed hrunning hpc hnobody
  · exact .now fun h => h.unfailed c hpc
  · rw [hnot] at hpc
    cases hpc

/-- The endpoint of a thread that does not take connections is sent. -/
theorem not_connectable_of_send (hmain : s.mainAt = .send c k) (hk : s.threads[k]? = some th)
    (hdeaf : th.pc.listening = false) (hstep : step s .main = some t) : ¬ Connectable t := by
  simp only [step, mainStep, hmain, hk, Option.map_some, Option.some.injEq] at hstep
  subst hstep
  intro h
  have hready := h.ready ⟨c, k, s.ready k⟩ (by simp)
  simp [Server.ready, hk, hdeaf] at hready

/-- A thread that has not come past `accept`, and nobody for whom it was created is
settled: somebody is still to be sent its endpoint or to connect. -/
theorem Hosted.awaited (h : Hosted s) (hth : s.threads[k]? = some th)
    (hpc : th.pc.starting = true ∨ th.pc = .accept ∧ ¬ s.Settled k) : s.Awaited k := by
  rcases hpc with hpc | ⟨-, hnot⟩
  · exact .inl (h.prepared.starting k th hth hpc)
  · have hlt : k < s.clientsServed + s.mainAt.uncounted :=
      h.counted.length ▸ (List.getElem?_eq_some_iff.mp hth).1
    -- either the endpoint of the thread has been sent, or it is sent next
    by_cases hsent : k < s.clientsServed + s.mainAt.sent
    · have hmem : k ∈ s.handed.map Handover.thread := by
        rw [h.counted.handed]
        exact List.mem_range.mpr hsent
      obtain ⟨x, hx, hxk⟩ := List.mem_map.mp hmem
      refine .inr ⟨x, hx, hxk, Bool.eq_false_iff.mpr fun hsettled => hnot ⟨x, hx, hxk, hsettled⟩⟩
    · left
      cases hmain : s.mainAt with
      | send c l =>
        have hl : l = s.clientsServed := h.counted.current l (by rw [hmain]; rfl)
        rw [hmain] at hlt hsent
        simp only [MainPc.uncounted, MainPc.sent] at hlt hsent
        exact ⟨c, by rw [hl, show k = s.clientsServed by omega]⟩
      | _ =>
        rw [hmain] at hlt hsent
        simp only [MainPc.uncounted, MainPc.sent] at hlt hsent
        omega

/-- Nobody takes over the port of a thread that has ended. -/
theorem Hosted.listener_none (h : Hosted s) {th' : Service} (hth : s.threads[k]? = some th)
    (haccept : th.pc = .accept) (hended : th'.pc = .ended)
    (hthreads : t.threads = s.threads.set k th') : listener t th.servicePort = none := by
  rw [listener]
  split
  · rfl
  · rename_i hopen
    rw [not_or] at hopen
    rw [List.findIdx?_eq_none_iff, hthreads]
    intro y hy
    obtain ⟨j, hj⟩ := List.mem_iff_getElem?.mp hy
    by_contra hfound
    simp only [Bool.not_eq_false, Bool.and_eq_true, beq_iff_eq] at hfound
    -- a second socket with this port would have been bound beside the first
    rcases getElem?_set_cases hj with ⟨-, rfl⟩ | ⟨hne, hj⟩
    · simp [hended, ThreadPc.listening] at hfound
    · exact hne (h.sound.apart j k y th hj hth (bound_of_listening hfound.1)
        (by rw [haccept]; rfl) (by rw [hfound.2]; exact hopen.2) hfound.2)

/-- A client that was sent an endpoint and has not connected is refused when nobody
takes connections to its port any more. -/
theorem Hosted.misses (h : Hosted s) {x : Handover} (hx : x ∈ s.handed)
    (hnot : (s.client x.client).settled = false)
    (hpc : ∀ c, (t.client c).pc = (s.client c).pc)
    (hvanished : ∀ c, (t.client c).vanished = (s.client c).vanished)
    (hinbox : ∀ c, (t.client c).inbox = (s.client c).inbox)
    (hnobody : ∀ port, s.port x.thread = some port → listener t port = none) : Misses t := by
  obtain ⟨port, hport, htold⟩ := h.sound.invited.told x hx
  obtain ⟨hrunning, hunconnected⟩ : (s.client x.client).vanished = false ∧
      (s.client x.client).pc.isConnected = false := by
    simpa [Client.settled] using hnot
  apply misses_of_told (c := x.client) port
  · rw [hvanished, hrunning]
  · exact ⟨by rw [hinbox, htold.inbox], by rw [hpc]; exact htold.pc⟩
  · rw [hpc, hunconnected]
  · exact h.sound.range.parse hport
  · exact hnobody port hport

/-- A call fails before the client of the thread has connected. -/
theorem Hosted.misses_of_service (h : Hosted s) (hnot : ¬ Prompt s (.service k ok))
    (hstep : step s (.service k ok) = some t) : Misses t := by
  obtain ⟨th, th', hth, hmove⟩ := step_service hstep
  simp only [Prompt, hth, Option.any_some, Classical.not_imp] at hnot
  obtain ⟨rfl, hnot⟩ := hnot
  have hlt : k < s.threads.length := (List.getElem?_eq_some_iff.mp hth).1
  have hpc : th.pc.starting = true ∨ th.pc = .accept ∧ ¬ s.Settled k := by
    by_cases hstarting : th.pc.starting = true
    · exact .inl hstarting
    · right
      simpa [Bool.eq_false_iff.mpr hstarting] using hnot
  have hended : th'.pc = .ended := by
    rw [hmove.ended]
    rcases hpc with hpc | ⟨hpc, -⟩
    · cases hat : th.pc <;> simp [hat, ThreadPc.starting, ThreadPc.ends] at hpc ⊢
    · simp [hpc, ThreadPc.ends]
  have hmain : t.mainAt = s.mainAt := by rw [hmove.eq]
  have hthreads : t.threads = s.threads.set k th' := by rw [hmove.eq]
  have hk : t.threads[k]? = some th' := by rw [hthreads, List.getElem?_set_self hlt]
  rcases h.awaited hth hpc with ⟨c, hat⟩ | ⟨x, hx, rfl, hunsettled⟩
  -- The endpoint of the thread is sent next.
  · have hat' : t.mainAt = .send c k := hmain.trans hat
    obtain ⟨u, hnext⟩ : ∃ u, step t .main = some u := by
      simp [step, OneShot.mainStep, hat', hk]
    have hprompt : Prompt t .main := by
      simp [Prompt, MainPrompt, hat', hk, hended, ThreadPc.starting]
    exact .of_step hprompt hnext
      (.now (not_connectable_of_send hat' hk (by rw [hended]; rfl) hnext))
  -- It was sent, and the client comes too late.
  · obtain ⟨th₀, hth₀, -, haccept, -⟩ := h.prepared.waits h.counted hx hunsettled
    obtain rfl := Option.some.inj (hth.symm.trans hth₀)
    refine h.misses hx hunsettled hmove.pc hmove.vanished hmove.inbox fun port hport => ?_
    obtain ⟨th₁, hth₁, rfl⟩ := port_eq_some.mp hport
    obtain rfl := Option.some.inj (hth.symm.trans hth₁)
    exact h.listener_none hth haccept hended hthreads

/-- The endpoint is sent too early, or the process ends too early. -/
theorem Hosted.misses_of_main (h : Hosted s) (hnot : ¬ Prompt s .main)
    (hstep : step s .main = some t) : Misses t := by
  simp only [Prompt] at hnot
  cases hmain : s.mainAt with
  | send c k =>
    rw [hmain, MainPrompt] at hnot
    obtain ⟨th, hth, -⟩ := h.prepared.awaited k (.inl ⟨c, hmain⟩)
    have hstarting : th.pc.starting = true := by simpa [hth] using hnot
    refine .now (not_connectable_of_send hmain hth ?_ hstep)
    rw [Bool.eq_false_iff]
    intro hlistening
    rw [not_starting hlistening] at hstarting
    cases hstarting
  -- the process ends, and with it every socket
  | report =>
    rw [hmain, MainPrompt] at hnot
    push Not at hnot
    obtain ⟨x, hx, hunsettled⟩ := hnot
    simp only [step, OneShot.mainStep, hmain, Option.some.injEq] at hstep
    subst hstep
    refine h.misses hx (Bool.eq_false_iff.mpr hunsettled) (fun _ => rfl) (fun _ => rfl)
      (fun _ => rfl) fun port _ => ?_
    simp [listener, Server.mainGoto]
  | _ =>
    rw [hmain] at hnot
    exact absurd trivial hnot

/-- A client is sent port zero. -/
theorem misses_of_zero (th : Service) (hmain : s.mainAt = .send c k) (hk : s.threads[k]? = some th)
    (haccept : th.pc = .accept) (hzero : htons th.servicePort = 0)
    (hparse : parseEndpoint (endpoint th.servicePort) =
      some ("127.0.0.1".toList, th.servicePort))
    (hwaiting : (s.client c).pc = .waiting) (hrunning : (s.client c).vanished = false) :
    Misses s := by
  have hstep : step s .main = some
      { s.setClient c { s.client c with inbox := some (endpoint th.servicePort) } with
        mainAt := .close c k, handed := s.handed ++ [⟨c, k, s.ready k⟩] } := by
    simp [step, OneShot.mainStep, hmain, hk]
  have hprompt : Prompt s .main := by
    simp [Prompt, MainPrompt, hmain, hk, haccept, ThreadPc.starting]
  apply Misses.of_step hprompt hstep
  apply misses_of_told (c := c) th.servicePort
  · simp [Server.setClient, hrunning]
  · exact ⟨by simp [Server.setClient], .inl (by simp [Server.setClient, hwaiting])⟩
  · simp [Server.setClient, hwaiting, ClientPc.isConnected]
  · exact hparse
  · simp [listener, hzero]

/-- A new thread whose calls succeed is at `accept` after three steps. -/
theorem run_starting (hmain : s.mainAt ≠ .exited) (hk : s.threads[k]? = some th)
    (hpc : th.pc = .socket) (hfree : htons th.servicePort = 0) :
    run step s (List.replicate 3 (.service k true)) =
      some (s.setThread k { th with pc := .accept }) := by
  have hlt : k < s.threads.length := (List.getElem?_eq_some_iff.mp hk).1
  have hfirst : step s (.service k true) = some (s.setThread k { th with pc := .bind }) := by
    simp [step, hmain, hk, serviceServerThread, hpc]
  have hsecond : step (s.setThread k { th with pc := .bind }) (.service k true) =
      some (s.setThread k { th with pc := .listen }) := by
    simp [step, Server.setThread, hmain, hlt, serviceServerThread, Server.taken, hfree]
  have hthird : step (s.setThread k { th with pc := .listen }) (.service k true) =
      some (s.setThread k { th with pc := .accept }) := by
    simp [step, Server.setThread, hmain, hlt, serviceServerThread]
  simp [List.replicate, run, hfirst, hsecond, hthird]

theorem Misses.of_run {acts : List Action} (hrun : run step s acts = some t)
    (hprompt : Along step Prompt s acts) (h : Misses t) : Misses s := by
  obtain ⟨more, u, hmore, halong, hnot⟩ := h
  exact ⟨acts ++ more, u, run_append_eq_some.mpr ⟨t, hrun, hmore⟩, hprompt.append hrun halong, hnot⟩

/-- The client of a new thread is still there and will be given port zero. -/
theorem Hosted.misses_of_create (h : Hosted s) (hnot : ¬ Prompt s (.create ok))
    (hstep : step s (.create ok) = some t) : Misses t := by
  simp only [step, OneShot.create] at hstep
  split at hstep
  · rename_i c hmain
    simp only [Prompt, hmain, MainPc.client, List.mem_singleton, forall_eq, Classical.not_imp,
      not_or, Bool.not_eq_true, ne_eq, not_not] at hnot
    obtain ⟨rfl, hrunning, hzero⟩ := hnot
    split at hstep
    · rw [if_pos rfl] at hstep
      simp only [Int.add_sub_cancel, Option.some.injEq] at hstep
      have hwaiting := h.sound.invited.waiting (by simp [hmain]) c
        (by simp [Server.queue, hmain, MainPc.client])
      have hparse : parseEndpoint (endpoint s.currentPort) =
          some ("127.0.0.1".toList, s.currentPort) := 
        parse_endpoint h.sound.range.current.1 h.sound.range.current.2
      subst hstep
      -- The new thread comes to `accept` before the endpoint is sent.
      have hlast : (s.threads ++ [⟨s.currentPort, .socket, [], false⟩])[s.threads.length]? =
          some ⟨s.currentPort, .socket, [], false⟩ := by simp
      refine .of_run (run_starting (by simp) hlast rfl hzero) ?_ ?_
      · apply Along.of_forall
        intro a ha s
        rw [List.eq_of_mem_replicate ha]
        rintro ⟨⟩
      · apply misses_of_zero (c := c) (k := s.threads.length) ⟨s.currentPort, .accept, [], false⟩
        · rfl
        · simp [Server.setThread]
        · rfl
        · exact hzero
        · exact hparse
        · exact hwaiting.1
        · exact hrunning
    · cases hstep
  · cases hstep

/-! ### The main result -/

/-- In a run whose steps are prompt, each endpoint is sent while its thread takes
connections, and no client's connect is refused. Each step that is not prompt leads,
by prompt steps, to one that is sent too early or to a connect that is refused. -/
theorem connectable_of_prompt {acts : List Action} (hrun : run step start acts = some s)
    (hprompt : Along step Prompt start acts) :
    Connectable s ∧ ∀ a t, ¬ Prompt s a → step s a = some t → Misses t := by
  have h : Hosted s := hosted_of_prompt hrun hprompt
  refine ⟨⟨h.prepared.ready, h.prepared.unfailed⟩, fun a t hnot hstep => ?_⟩
  cases a with
  | main => exact h.misses_of_main hnot hstep
  | create ok => exact h.misses_of_create hnot hstep
  | service k ok => exact h.misses_of_service hnot hstep
  | abortBacklog | client c | vanish c => exact absurd trivial hnot

/-- The new thread is faster than the main thread, and the client connects. -/
theorem connectable_of_prompt_inTurn :
    ∃ s, run step start ([.client 0, .main, .create true] ++ List.replicate 3 (.service 0 true) ++
        [.main, .client 0, .client 0]) = some s ∧
      (s.client 0).pc = .connected ∧ Connectable s := by
  let acts : List Action := [.client 0, .main, .create true] ++
    List.replicate 3 (.service 0 true) ++ [.main, .client 0, .client 0]
  have hend : (run step start acts).map (fun s => (s.client 0).pc) = some .connected := by decide
  obtain ⟨s, hrun, hpc⟩ := Option.map_eq_some_iff.mp hend
  have hprompt : Along step Prompt start acts := by decide
  exact ⟨s, hrun, hpc, (connectable_of_prompt hrun hprompt).1⟩

/-- The main thread and the client are faster than the new thread. -/
theorem not_connectable_tooEarly :
    ¬ ∀ acts s, run step start acts = some s → Connectable s := by
  intro hall
  have hend : (run step start
      [.client 0, .main, .create true, .main, .client 0, .client 0]).map
        (fun s => (s.client 0).pc) = some .failed := by decide
  obtain ⟨s, hrun, hpc⟩ := Option.map_eq_some_iff.mp hend
  exact (hall _ s hrun).unfailed 0 hpc

end UnixLessons.OneShot

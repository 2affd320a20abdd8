import UnixLessons.Taxi.Agreement

/-!
# A driver that dies

A driver that is dead when its command is written takes the dispatcher with it:
nobody else has the read end of its command pipe open, and SIGPIPE is not handled.
A driver that dies at any other moment does no harm, since nobody else has the
write end of its reply pipe open either, so the dispatcher reads its answer or the
end of the file.

## Main results

* `step_sigpipe_iff`: which moves kill the dispatcher
* `answer_follows`: a call of `send_command` that has written returns
* `survives_iff`: the dispatcher survives exactly the runs in which every driver is
  alive when it is written to
-/

namespace UnixLessons.Taxi

open Text Descriptors Transition World

variable {s t : World} {p p' : Process} {k : ℕ} {a : Action} {e : Exchange}

/-- When `send_command` is called, the driver it is meant for is alive, if there is
one that was not waited for. -/
def AddresseeAlive (s : World) : Action → Prop
  | .send =>
    match s.pc with
    | .sending c => (s.addressee c.pid).all (fun k => (s.live k).isSome) = true
    | _ => True
  | _ => True

/-- A finished call returned the answer of its driver, or says what is wrong. -/
def Settled (s : World) (e : Exchange) : Prop :=
  (∃ (k : ℕ) (p : Process) (h : Handled), e.addressee = some k ∧ s.procs[k]? = some p ∧
    h ∈ p.mem.handled ∧ Agreed e h) ∨
  e.code = -1 ∧ (e.response = notFoundText e.pid ∨ e.response = notRespondingText e.pid)

/-- The dispatcher was not killed, and every call of `send_command` returns as it
should: a finished one has, and one that waits does after at most five moves of
the driver it waits for. -/
structure Survives (s : World) : Prop where
  running : s.pc ≠ .sigpipe
  settled : ∀ e ∈ s.exchanges, Settled s e
  returns : ∀ c fd, s.pc = .receiving c fd → ∃ k n, n ≤ 5 ∧
    ∀ nows : List Int64, nows.length = n →
      ∃ t, run step s (nows.map (.advance k)) = some t ∧ (step t .receive).isSome = true

/-! ### The dispatcher is killed -/

theorem createDriver_pc {o : Outcome} (hcreate : s.createDriver o = some t) : t.pc = .prompt := by
  rcases createDriver_cases hcreate with
    ⟨-, rfl⟩ | ⟨drivers, slot, -, ⟨u, l, -, -, rfl⟩ | ⟨r₁, w₁, r₂, w₂, pid, hforks⟩⟩
  · rfl
  · rfl
  · rw [hforks.eq]

theorem finish_pc_ne (s : World) (c : Call) (code : ℤ) (response : CString) :
    (s.finish c code response).pc ≠ .sigpipe := by
  simp only [finish]
  split <;> simp

theorem driverMove_pc (hmove : DriverMove s k p t) : t.pc = s.pc := by
  obtain ⟨p', -, heq⟩ := hmove
  rw [heq]

theorem addresseeAlive_of_ne (h : a ≠ .send) : AddresseeAlive s a := by
  unfold AddresseeAlive
  split
  · exact absurd rfl h
  · trivial

theorem send_sigpipe_iff (hs : Sound s) {c : Call} (hpc : s.pc = .sending c) :
    (s.send c).pc = .sigpipe ↔ ¬ AddresseeAlive s .send := by
  simp only [AddresseeAlive, hpc]
  rcases send_cases hs.custody hs.valid c with
    ⟨hnone, hsend⟩ | ⟨k, p, fd, hk, hlife, hpid, -, ⟨hlive, hsend⟩ | ⟨hdead, hsend⟩⟩ <;>
    rw [hsend]
  · simp [hnone, finish_pc_ne]
  · have halive : s.live k = some p := live_eq_some.mpr ⟨hk, hlive⟩
    simp [← hpid, addressee_eq hs.valid hk hlife, halive]
  · have hnot : s.live k = none := by simp [live, hk, hdead]
    simp [← hpid, addressee_eq hs.valid hk hlife, hnot]

theorem receive_pc_ne (hs : Sound s) {c : Call} {fd : ℕ} (hpc : s.pc = .receiving c fd)
    (hreceive : s.receive c fd = some t) : t.pc ≠ .sigpipe := by
  obtain ⟨k, p, hk, -, -, hfd⟩ := hs.agreement.receiving c fd hpc
  rcases receive_cases hs.custody c hk hfd with
    ⟨-, -, heq⟩ | ⟨-, -, heq⟩ | ⟨-, heq⟩ <;> rw [heq] at hreceive <;> cases hreceive
  · exact finish_pc_ne _ _ _ _
  · exact finish_pc_ne _ _ _ _

/-- The only deadly move is to write to a driver that is dead. -/
theorem step_sigpipe_iff (hs : Sound s) (hstep : step s a = some t) :
    t.pc = .sigpipe ↔ s.pc = .sigpipe ∨ ¬ AddresseeAlive s a := by
  cases step_move hstep with
  | goesOn _ pc out hother hbefore hafter =>
    simp [hbefore.1, hafter.1, addresseeAlive_of_ne hother]
  | reap k _ hreap =>
    obtain ⟨p, i, d, hc⟩ := reap_collects hs.valid hreap
    simp [hc.eq, setProc, addresseeAlive_of_ne]
  | create o _ hpc hcreate => simp [createDriver_pc hcreate, hpc, addresseeAlive_of_ne]
  | send c hpc => simp [send_sigpipe_iff hs hpc, hpc]
  | receive c fd _ hpc hreceive =>
    simp [receive_pc_ne hs hpc hreceive, hpc, addresseeAlive_of_ne]
  | driver _ k p _ hother _ _ hmove =>
    simp [driverMove_pc hmove, addresseeAlive_of_ne hother]

/-- The dispatcher is not killed exactly if no step of the run is deadly. -/
theorem run_sigpipe_iff {acts : List Action} (hs : Sound s) (hrun : run step s acts = some t) :
    t.pc ≠ .sigpipe ↔ s.pc ≠ .sigpipe ∧ Along step AddresseeAlive s acts := by
  have hstep : ∀ ⦃s a t⦄, Sound s → step s a = some t →
      Sound t ∧ (t.pc ≠ .sigpipe ↔ s.pc ≠ .sigpipe ∧ AddresseeAlive s a) := by
    intro s a t hs hstep
    refine ⟨hs.step hstep, ?_⟩
    rw [ne_eq, step_sigpipe_iff hs hstep, not_or, not_not]
  exact along_iff hstep hs hrun

/-! ### The finished calls -/

/-- A move loses nothing of the histories, and the calls it finishes are settled. -/
structure Keeps (s t : World) : Prop where
  handled : ∀ (k : ℕ) (p : Process), s.procs[k]? = some p →
    ∃ p', t.procs[k]? = some p' ∧ p.mem.handled <+: p'.mem.handled
  exchanges : ∀ e ∈ t.exchanges, e ∈ s.exchanges ∨ Settled t e

theorem Keeps.same (hprocs : t.procs = s.procs) (hexchanges : t.exchanges = s.exchanges) :
    Keeps s t :=
  ⟨fun _ p hk => ⟨p, hprocs ▸ hk, List.prefix_rfl⟩, fun _ he => .inl (hexchanges ▸ he)⟩

theorem Keeps.settled (h : Keeps s t) (hs : ∀ e ∈ s.exchanges, Settled s e) :
    ∀ e ∈ t.exchanges, Settled t e := by
  intro e he
  rcases h.exchanges e he with hold | hnew
  · rcases hs e hold with ⟨k, p, hd, haddressee, hk, hmem, hagreed⟩ | hfailed
    · obtain ⟨p', hk', hkept⟩ := h.handled k p hk
      exact .inl ⟨k, p', hd, haddressee, hk', hkept.subset hmem, hagreed⟩
    · exact .inr hfailed
  · exact hnew

/-- A call is finished and settled. -/
theorem Keeps.finish {c : Call} {code : ℤ} {response : CString} (hprocs : t.procs = s.procs)
    (hexchanges : t.exchanges = s.exchanges)
    (hsettled : Settled (t.finish c code response)
      ⟨c.pid, c.request, t.addressee c.pid, code, response, report c code response⟩) :
    Keeps s (t.finish c code response) where
  handled := fun _ p hk => ⟨p, hprocs ▸ hk, List.prefix_rfl⟩
  exchanges := fun e he => by
    rcases List.mem_append.mp he with he | he
    · exact .inl (hexchanges ▸ he)
    · exact .inr (List.mem_singleton.mp he ▸ hsettled)

/-- One driver changes and keeps its history. -/
theorem set_keeps (hk : s.procs[k]? = some p) (hprocs : t.procs = s.procs.set k p')
    (hexchanges : t.exchanges = s.exchanges) (hkept : p.mem.handled <+: p'.mem.handled) :
    Keeps s t := by
  refine ⟨fun l q hl => ?_, fun _ he => .inl (hexchanges ▸ he)⟩
  rw [hprocs]
  by_cases hkl : k = l
  · subst hkl
    obtain rfl := Option.some.inj (hk.symm.trans hl)
    exact ⟨p', List.getElem?_set_self (List.getElem?_eq_some_iff.mp hk).1, hkept⟩
  · exact ⟨q, (List.getElem?_set_ne hkl).trans hl, List.prefix_rfl⟩

theorem driverMove_keeps (hk : s.procs[k]? = some p) (hmove : DriverMove s k p t) : Keeps s t := by
  obtain ⟨p', hnext, heq⟩ := hmove
  have hkept : p.mem.handled <+: p'.mem.handled := by
    cases hnext with
    | goesOn mem follows => exact follows.handled
    | _ => exact List.prefix_rfl
  rw [heq]
  exact set_keeps hk rfl rfl hkept

theorem createDriver_keeps {o : Outcome} (hcreate : s.createDriver o = some t) : Keeps s t := by
  rcases createDriver_cases hcreate with
    ⟨-, rfl⟩ | ⟨drivers, slot, -, ⟨u, l, hopens, -, rfl⟩ | ⟨r₁, w₁, r₂, w₂, pid, hforks⟩⟩
  · exact .same rfl rfl
  · obtain ⟨-, -, hprocs, hexchanges, -⟩ := hopens.frame
    exact .same hprocs hexchanges
  · rw [hforks.eq]
    refine ⟨fun k p hk => ⟨p, ?_, List.prefix_rfl⟩, fun _ he => .inl he⟩
    exact (List.getElem?_append_left (List.getElem?_eq_some_iff.mp hk).1).trans hk

theorem send_keeps (hs : Sound s) (c : Call) : Keeps s (s.send c) := by
  rcases send_cases hs.custody hs.valid c with
    ⟨-, hsend⟩ | ⟨k, p, fd, -, -, -, -, ⟨-, hsend⟩ | ⟨-, hsend⟩⟩ <;> rw [hsend]
  · exact .finish rfl rfl (.inr ⟨rfl, .inl rfl⟩)
  · exact .same rfl rfl
  · exact .same rfl rfl

theorem receive_keeps (hs : Sound s) {c : Call} {fd : ℕ} (hpc : s.pc = .receiving c fd)
    (hreceive : s.receive c fd = some t) : Keeps s t := by
  obtain ⟨k, p, hk, hlife, hpid, hfd, hasked⟩ := hs.agreement.awaited hpc
  rcases receive_cases hs.custody c hk hfd with
    ⟨-, -, heq⟩ | ⟨-, -, heq⟩ | ⟨hne, heq⟩ <;> rw [heq] at hreceive <;> cases hreceive
  · exact .finish rfl rfl (.inr ⟨rfl, .inr rfl⟩)
  · obtain ⟨hd, hs', hhandled, hanswers, -, -, hcstr, -, -⟩ :=
      hs.agreement.received hk hasked hne
    have haddressee : (s.consume p.reply).addressee c.pid = some k :=
      hpid ▸ addressee_eq hs.valid hk hlife
    rw [hcstr]
    exact .finish rfl rfl (.inl ⟨k, p, hd, haddressee, hk, by simp [hhandled], hanswers.agreed _⟩)

theorem step_keeps (hs : Sound s) (hstep : step s a = some t) : Keeps s t := by
  cases step_move hstep with
  | goesOn => exact .same rfl rfl
  | reap k _ hreap =>
    obtain ⟨p, i, d, hc⟩ := reap_collects hs.valid hreap
    have hexchanges : t.exchanges = s.exchanges := by
      rw [hc.eq]
      rfl
    have hprocs : t.procs = s.procs.set k { p with life := .reaped } := by
      rw [hc.eq]
      rfl
    exact set_keeps hc.proc hprocs hexchanges List.prefix_rfl
  | create o _ _ hcreate => exact createDriver_keeps hcreate
  | send c => exact send_keeps hs c
  | receive c fd _ hpc hreceive => exact receive_keeps hs hpc hreceive
  | driver _ k p _ _ hk _ hmove => exact driverMove_keeps hk hmove

theorem run_settled {acts : List Action} (hrun : run step World.init acts = some s) :
    ∀ e ∈ s.exchanges, Settled s e := by
  have hpreserved : Preserved step fun s => Sound s ∧ ∀ e ∈ s.exchanges, Settled s e :=
    fun s _ t h hstep => ⟨h.1.step hstep, (step_keeps h.1 hstep).settled h.2⟩
  have hinit : ∀ e ∈ World.init.exchanges, Settled World.init e := by simp [World.init]
  exact (hpreserved.run ⟨Sound.init, hinit⟩ hrun).2

/-! ### Every call returns -/

/-- Moves a driver makes from here until it has written an answer. -/
def DriverPc.rank : DriverPc → ℕ
  | .start _ _ => 5
  | .top => 4
  | .select _ => 3
  | .handle _ => 2
  | .reply _ => 1

/-- Moves that are left until an answer can be read. -/
def movesLeft (s : World) (p : Process) : ℕ :=
  if s.buffer p.reply = [] then p.mem.pc.rank else 0

theorem movesLeft_le (s : World) (p : Process) : movesLeft s p ≤ 5 := by
  unfold movesLeft
  split
  · cases p.mem.pc <;> simp [DriverPc.rank]
  · simp

theorem movesLeft_eq_zero (h : movesLeft s p = 0) : s.buffer p.reply ≠ [] := by
  unfold movesLeft at h
  split at h
  · cases hpc : p.mem.pc <;> simp [hpc, DriverPc.rank] at h
  · assumption

/-- The dispatcher waits for the driver `k`, which is alive. -/
structure Awaits (s : World) (c : Call) (fd k : ℕ) (p : Process) : Prop where
  pc : s.pc = .receiving c fd
  proc : s.procs[k]? = some p
  live : p.life = .live
  pid : p.pid = c.pid
  lookup : s.fds.lookup fd = some ⟨p.reply, .read⟩

theorem Awaits.asked {c : Call} {fd : ℕ} (h : Awaits s c fd k p) : s.asked p = some c.request := by
  simp [World.asked, h.pc, h.live, h.pid]

/-- An answer can be read. -/
theorem Awaits.receive_isSome {c : Call} {fd : ℕ} (hs : Sound s) (h : Awaits s c fd k p)
    (hne : s.buffer p.reply ≠ []) : (step s .receive).isSome = true := by
  simp only [step, h.pc]
  rcases receive_cases hs.custody c h.proc h.lookup with
    ⟨hempty, -⟩ | ⟨hempty, -⟩ | ⟨-, heq⟩
  · exact absurd hempty hne
  · exact absurd hempty hne
  · rw [heq]
    rfl

/-- A driver that stays alive is still waited for. -/
theorem Awaits.moved {c : Call} {fd : ℕ} (h : Awaits s c fd k p) (fds : Table) (mem : DriverState)
    (buffer : ℕ → List Char) :
    Awaits { s with procs := s.procs.set k { p with fds, mem }, buffer } c fd k
      { p with fds, mem } :=
  ⟨h.pc, List.getElem?_set_self (List.getElem?_eq_some_iff.mp h.proc).1, h.live, h.pid, h.lookup⟩

theorem enterSelect_rank (d : DriverState) (now : Int64) : (d.enterSelect now).pc.rank = 3 := by
  unfold DriverState.enterSelect
  split
  · dsimp only
    split <;> rfl
  · rfl

/-- A driver that is waited for can move, and each of its moves brings the answer
nearer. -/
theorem Awaits.advance {c : Call} {fd n : ℕ} (hs : Sound s) (h : Awaits s c fd k p)
    (hn : movesLeft s p = n + 1) (now : Int64) :
    ∃ t p', step s (.advance k now) = some t ∧ Awaits t c fd k p' ∧ movesLeft t p' = n := by
  have hempty : s.buffer p.reply = [] := by
    by_contra hne
    simp [movesLeft, hne] at hn
  have hrank : p.mem.pc.rank = n + 1 := by
    rwa [movesLeft, if_pos hempty] at hn
  have hphase := hs.agreement.phase k p h.proc (.inl h.live)
  obtain ⟨hreadFd, hwriteFd⟩ := hs.custody.own p (List.mem_of_getElem? h.proc)
  obtain ⟨hown, -⟩ := pipes_own hs.valid h.proc
  have hstep : step s (.advance k now) = s.advance k p now := by
    simp only [step, live_eq_some.mpr ⟨h.proc, h.live⟩, Option.bind_some]
  -- It is enough to give the memory and the pipes after the move.
  have hgoal : ∀ (fds : Table) (mem : DriverState) (buffer : ℕ → List Char),
      s.advance k p now =
        some { s with procs := s.procs.set k { p with fds, mem }, buffer } →
      (if buffer p.reply = [] then mem.pc.rank else 0) = n →
      ∃ t p', step s (.advance k now) = some t ∧ Awaits t c fd k p' ∧ movesLeft t p' = n :=
    fun fds mem buffer hadvance hleft =>
      ⟨_, _, hstep.trans hadvance, h.moved fds mem buffer, hleft⟩
  rw [h.asked] at hphase
  cases hphase with
  | sent _ quiet hcommand =>
    cases hpc : p.mem.pc with
    | start w r =>
      rw [hpc] at hrank
      exact hgoal ((p.fds.erase w).erase r) { p.mem with pc := .top } s.buffer
        (by simp only [World.advance, hpc]; rfl) ((if_pos hempty).trans (Nat.succ.inj hrank))
    | top =>
      rw [hpc] at hrank
      exact hgoal p.fds (p.mem.enterSelect now) s.buffer
        (by simp only [World.advance, hpc]; rfl)
        ((if_pos hempty).trans ((enterSelect_rank _ _).trans (Nat.succ.inj hrank)))
    | select timeout =>
      rw [hpc] at hrank
      have hne : s.buffer p.command ≠ [] := hcommand ▸ message_ne_nil
      have hempty' : (s.consume p.command).buffer p.reply = [] :=
        (Function.update_of_ne hown.symm _ _).trans hempty
      exact hgoal p.fds { p.mem with pc := .handle (cstr ((s.buffer p.command).take readMax)) }
        (s.consume p.command).buffer
        (by simp only [World.advance, hpc, readCommand, hreadFd, if_neg hne]; rfl)
        ((if_pos hempty').trans (Nat.succ.inj hrank))
    | handle buffer => exact absurd hpc (quiet.1 _)
    | reply text => exact absurd hpc (quiet.2 _)
  | handling _ hpc =>
    obtain ⟨hd, mem, hmem, -, hpc', -⟩ := handle_answers p.mem c.request now
    rw [hpc] at hrank
    exact hgoal p.fds mem s.buffer
      (by simp only [World.advance, hpc, hmem, Option.map_some]; rfl)
      ((if_pos hempty).trans (hpc' ▸ Nat.succ.inj hrank))
  | replying _ hd _ _ _ hpc =>
    have hrunning : s.Running := by simp [Running, h.pc]
    have hheld := held_reply_read hs.valid hrunning (List.mem_of_getElem? h.proc)
      (by simp [h.live])
    have hne : (s.append p.reply (message hd.reply)).buffer p.reply ≠ [] := by
      simp [World.append, message]
    rw [hpc] at hrank
    exact hgoal p.fds { p.mem with pc := .top } (s.append p.reply (message hd.reply)).buffer
      (by simp only [World.advance, hpc, World.writeReply, hwriteFd, if_pos hheld]; rfl)
      ((if_neg hne).trans (Nat.succ.inj hrank))
  | answered _ hd _ _ _ _ _ hreply =>
    exact absurd (hreply.symm.trans hempty) message_ne_nil

/-- Once the driver has made the moves that are left, its answer is read. -/
theorem Awaits.returns {c : Call} {fd : ℕ} {nows : List Int64} (hs : Sound s)
    (h : Awaits s c fd k p) (hn : movesLeft s p = nows.length) :
    ∃ t, run step s (nows.map (.advance k)) = some t ∧ (step t .receive).isSome = true := by
  induction nows generalizing s p with
  | nil => exact ⟨s, rfl, h.receive_isSome hs (movesLeft_eq_zero hn)⟩
  | cons now nows ih =>
    obtain ⟨u, p', hu, h', hn'⟩ := h.advance hs hn now
    obtain ⟨t, hrun, ht⟩ := ih (hs.step hu) h' hn'
    exact ⟨t, run_cons_eq_some.mpr ⟨u, hu, hrun⟩, ht⟩

/-- A call of `send_command` that has written its command returns. -/
theorem answer_follows (hs : Sound s) {c : Call} {fd : ℕ} (hpc : s.pc = .receiving c fd) :
    ∃ k n, n ≤ 5 ∧ ∀ nows : List Int64, nows.length = n →
      ∃ t, run step s (nows.map (.advance k)) = some t ∧ (step t .receive).isSome = true := by
  obtain ⟨k, p, hk, hlife, hpid, hfd⟩ := hs.agreement.receiving c fd hpc
  by_cases hlive : p.life = .live
  · refine ⟨k, movesLeft s p, movesLeft_le s p, fun nows hlength => ?_⟩
    exact Awaits.returns hs ⟨hpc, hk, hlive, hpid, hfd⟩ hlength.symm
  · refine ⟨k, 0, Nat.zero_le 5, fun nows hlength => ?_⟩
    obtain rfl := List.length_eq_zero_iff.mp hlength
    refine ⟨s, rfl, ?_⟩
    simp only [step, hpc]
    rcases receive_cases hs.custody c hk hfd with
      ⟨-, hlive', -⟩ | ⟨-, -, heq⟩ | ⟨-, heq⟩
    · exact absurd hlive' hlive
    · rw [heq]
      rfl
    · rw [heq]
      rfl

/-! ### The main result -/

/-- In every run, the dispatcher survives and every call of `send_command` returns
as it should exactly when every driver is alive at the moment it is written to. -/
theorem survives_iff {acts : List Action} (hrun : run step World.init acts = some s) :
    Survives s ↔ Along step AddresseeAlive World.init acts := by
  have hs := Sound.run hrun
  have hstart : World.init.pc ≠ .sigpipe := by simp [World.init]
  have hrunning := run_sigpipe_iff Sound.init hrun
  rw [and_iff_right hstart] at hrunning
  constructor
  · intro hsurvives
    exact hrunning.mp hsurvives.running
  · intro halong
    exact ⟨hrunning.mpr halong, run_settled hrun, fun c fd hpc => answer_follows hs hpc⟩

/-- A driver dies after the zombies were collected for the command that is meant
for it. -/
def diesLate : List Action :=
  [.type .createDriver, .collected, .create (.forked 3 4 5 6 10),
    .type (.getStatus 10), .collected, .die 0, .send]

theorem not_survives_diesLate :
    ¬ ∀ acts s, run step World.init acts = some s → Survives s := by
  intro hall
  have hend : (run step World.init diesLate).map World.pc = some .sigpipe := by decide
  obtain ⟨s, hrun, hpc⟩ := Option.map_eq_some_iff.mp hend
  exact (hall diesLate s hrun).running hpc

/-- A driver dies while the dispatcher waits for its answer. -/
def diesWaiting : List Action :=
  [.type .createDriver, .collected, .create (.forked 3 4 5 6 10),
    .type (.getStatus 10), .collected, .send, .die 0, .receive]

theorem survives_iff_diesWaiting :
    ∃ s, run step World.init diesWaiting = some s ∧
      (Survives s ↔ Along step AddresseeAlive World.init diesWaiting) ∧
      s.out = [.created 10 0, .text "Driver 10 not responding".toList] := by
  have hend : (run step World.init diesWaiting).map World.out =
      some [.created 10 0, .text "Driver 10 not responding".toList] := by decide
  obtain ⟨s, hrun, hout⟩ := Option.map_eq_some_iff.mp hend
  exact ⟨s, hrun, survives_iff hrun, hout⟩

end UnixLessons.Taxi

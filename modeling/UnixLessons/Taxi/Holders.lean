import UnixLessons.Taxi.Registry

/-!
# Who holds which end

A forked driver inherits all descriptors of the dispatcher, so the ends the
dispatcher writes to and reads from are open in many drivers. The two other ends,
where a driver reads its commands and writes its answers, are open in that driver
only: the dispatcher closes them before it forks again.

## Main results

* `step_custody`: every move keeps this
* `held_command_read_iff`, `held_reply_write_iff`: such an end is open as long as
  the driver is alive
* `held_reply_read`: a driver can be heard until it is collected
* `send_cases`, `receive_cases`: what the two halves of `send_command` do
-/

namespace UnixLessons.Taxi

open Text Descriptors Transition World

variable {s t : World} {p p' q : Process} {k l : ℕ}

/-- A driver that has become the process `p'` holds no more than before. -/
structure Process.Shrinks (p p' : Process) : Prop where
  command : p'.command = p.command
  reply : p'.reply = p.reply
  sub : ∀ fd e, p'.fds.lookup fd = some e → p.fds.lookup fd = some e
  commandFd : p'.fds.lookup p'.mem.readFd = p.fds.lookup p.mem.readFd
  replyFd : p'.fds.lookup p'.mem.writeFd = p.fds.lookup p.mem.writeFd
  start : ∀ w r, p'.mem.pc = .start w r → p.mem.pc = .start w r ∧ p'.fds = p.fds

theorem Process.Shrinks.life (p : Process) (life : Life) : p.Shrinks { p with life } :=
  ⟨rfl, rfl, fun _ _ => id, rfl, rfl, fun _ _ h => ⟨h, rfl⟩⟩

theorem Process.Shrinks.mem {mem : DriverState} (h : p.mem.Follows mem) :
    p.Shrinks { p with mem } :=
  ⟨rfl, rfl, fun _ _ => id, congrArg p.fds.lookup h.readFd, congrArg p.fds.lookup h.writeFd,
    fun w r hpc => absurd hpc (h.pc w r)⟩

/-- The ends at which drivers read commands and write answers are open in these
drivers only. -/
structure Custody (s : World) : Prop where
  own : ∀ p ∈ s.procs, p.fds.lookup p.mem.readFd = some ⟨p.command, .read⟩ ∧
    p.fds.lookup p.mem.writeFd = some ⟨p.reply, .write⟩
  start : ∀ p ∈ s.procs, ∀ w r, p.mem.pc = .start w r →
    p.fds.lookup w = some ⟨p.command, .write⟩ ∧ p.fds.lookup r = some ⟨p.reply, .read⟩
  dispatcher : ∀ p ∈ s.procs, ¬ Holds s.fds ⟨p.command, .read⟩ ∧ ¬ Holds s.fds ⟨p.reply, .write⟩
  others : ∀ (k l : ℕ) (p q : Process), s.procs[k]? = some p → s.procs[l]? = some q → k ≠ l →
    ¬ Holds q.fds ⟨p.command, .read⟩ ∧ ¬ Holds q.fds ⟨p.reply, .write⟩
  below : ∀ p ∈ s.procs, Below p.fds s.pipes

namespace Custody

theorem init : Custody World.init := by
  constructor <;> simp [World.init]

/-- A move of the dispatcher that opens nothing. -/
theorem same (h : Custody s) (hprocs : t.procs = s.procs) (hpipes : t.pipes = s.pipes)
    (hfds : ∀ fd e, t.fds.lookup fd = some e → s.fds.lookup fd = some e) : Custody t where
  own := hprocs ▸ h.own
  start := hprocs ▸ h.start
  dispatcher := fun p hp => by
    obtain ⟨hread, hwrite⟩ := h.dispatcher p (hprocs ▸ hp)
    exact ⟨fun hholds => hread (hholds.imp fun fd => hfds fd _),
      fun hholds => hwrite (hholds.imp fun fd => hfds fd _)⟩
  others := hprocs ▸ h.others
  below := hprocs ▸ hpipes ▸ h.below

/-- One driver changes and opens nothing. -/
theorem shrink (h : Custody s) (hk : s.procs[k]? = some p) (hshrinks : p.Shrinks p') :
    Custody (s.setProc k p') := by
  have hp := List.mem_of_getElem? hk
  -- Every process has become one that holds no more.
  have hold : ∀ (l : ℕ) (q : Process), (s.procs.set k p')[l]? = some q →
      ∃ q₀, s.procs[l]? = some q₀ ∧ q₀.Shrinks q := by
    intro l q hq
    rcases Registry.Valid.getElem?_set_some hq with ⟨rfl, rfl⟩ | ⟨-, hq⟩
    · exact ⟨p, hk, hshrinks⟩
    · exact ⟨q, hq, .life q q.life⟩
  have holdMem : ∀ q ∈ s.procs.set k p', ∃ q₀ ∈ s.procs, q₀.Shrinks q := by
    intro q hq
    obtain ⟨l, hl⟩ := List.mem_iff_getElem?.mp hq
    obtain ⟨q₀, hq₀, hshrinks⟩ := hold l q hl
    exact ⟨q₀, List.mem_of_getElem? hq₀, hshrinks⟩
  constructor
  · intro q hq
    obtain ⟨q₀, hq₀, hs⟩ := holdMem q hq
    rw [hs.commandFd, hs.replyFd, hs.command, hs.reply]
    exact h.own q₀ hq₀
  · intro q hq w r hpc
    obtain ⟨q₀, hq₀, hs⟩ := holdMem q hq
    obtain ⟨hpc₀, hfds⟩ := hs.start w r hpc
    rw [hfds, hs.command, hs.reply]
    exact h.start q₀ hq₀ w r hpc₀
  · intro q hq
    obtain ⟨q₀, hq₀, hs⟩ := holdMem q hq
    rw [hs.command, hs.reply]
    exact h.dispatcher q₀ hq₀
  · intro l m q u hl hm hne
    obtain ⟨q₀, hq₀, hs⟩ := hold l q hl
    obtain ⟨u₀, hu₀, hs'⟩ := hold m u hm
    obtain ⟨hread, hwrite⟩ := h.others l m q₀ u₀ hq₀ hu₀ hne
    rw [hs.command, hs.reply]
    exact ⟨fun hholds => hread (hholds.imp fun fd => hs'.sub fd _),
      fun hholds => hwrite (hholds.imp fun fd => hs'.sub fd _)⟩
  · intro q hq fd e hfd
    obtain ⟨q₀, hq₀, hs⟩ := holdMem q hq
    exact h.below q₀ hq₀ fd e (hs.sub fd e hfd)

/-- The dispatcher opens one more pipe. -/
theorem pipe (h : Custody s) (hvalid : s.registry.Valid) {r w : ℕ} (hpipe : s.pipe r w = some t) :
    Custody t := by
  obtain ⟨hunused, rfl⟩ := pipe_eq_some hpipe
  refine { h with dispatcher := fun p hp => ?_, below := fun p hp => ?_ }
  · obtain ⟨hread, hwrite⟩ := h.dispatcher p hp
    obtain ⟨hcommand, hreply⟩ := hvalid.pipes_lt p.child (List.mem_map_of_mem hp)
    exact ⟨fun hholds => hread (hholds.of_openPipe hunused.2.2 (Nat.ne_of_lt hcommand)),
      fun hholds => hwrite (hholds.of_openPipe hunused.2.2 (Nat.ne_of_lt hreply))⟩
  · exact (h.below p hp).mono (Nat.le_succ _)

theorem opens (h : Custody s) (hvalid : s.registry.Valid) (hopens : Opens s t) : Custody t := by
  induction hopens with
  | refl => exact h
  | pipe hopens hpipe ih => exact ih.pipe (hopens.valid hvalid) hpipe

/-- A driver is forked: it gets all descriptors, the dispatcher keeps its own ends. -/
theorem forked (h : Custody s) (hvalid : s.registry.Valid) {slot r₁ w₁ r₂ w₂ : ℕ} {pid : Int32}
    (hforks : Forks s slot t r₁ w₁ r₂ w₂ pid) : Custody t := by
  have h₁ := hforks.first
  have h₂ := hforks.second
  have hfds : t.fds = keepTwo s.fds r₁ w₁ r₂ w₂ s.pipes := by rw [hforks.eq]
  have hpipes : t.pipes = s.pipes + 2 := by rw [hforks.eq]
  have hprocs : t.procs = s.procs ++ [⟨pid, .live, openTwo s.fds r₁ w₁ r₂ w₂ s.pipes,
      .init r₁ w₂ w₁ r₂, s.pipes, s.pipes + 1⟩] := by rw [hforks.eq]
  obtain ⟨hread, hwrite, hwrite', hread'⟩ := lookup_openTwo_child h₁ h₂ (n := s.pipes)
  have hlt : ∀ p ∈ s.procs, p.command < s.pipes ∧ p.reply < s.pipes := fun p hp =>
    hvalid.pipes_lt p.child (List.mem_map_of_mem hp)
  constructor
  · intro p hp
    rw [hprocs, List.mem_append, List.mem_singleton] at hp
    rcases hp with hp | rfl
    · exact h.own p hp
    · exact ⟨hread, hwrite⟩
  · intro p hp w r hpc
    rw [hprocs, List.mem_append, List.mem_singleton] at hp
    rcases hp with hp | rfl
    · exact h.start p hp w r hpc
    · cases hpc
      exact ⟨hwrite', hread'⟩
  · intro p hp
    rw [hprocs, List.mem_append, List.mem_singleton] at hp
    rw [hfds]
    rcases hp with hp | rfl
    · obtain ⟨hnot, hnot'⟩ := h.dispatcher p hp
      exact ⟨fun hholds => hnot (hholds.of_erase.of_erase.of_openTwo h₁ h₂ (hlt p hp).1),
        fun hholds => hnot' (hholds.of_erase.of_erase.of_openTwo h₁ h₂ (hlt p hp).2)⟩
    · exact keepTwo_not_holds h₁ h₂ hvalid.below
  · intro k l p q hk hl hne
    rw [hprocs] at hk hl
    rcases Registry.Valid.getElem?_concat hk with hk | ⟨rfl, rfl⟩ <;>
      rcases Registry.Valid.getElem?_concat hl with hl | ⟨rfl, rfl⟩
    · exact h.others k l p q hk hl hne
    · have hp := List.mem_of_getElem? hk
      obtain ⟨hnot, hnot'⟩ := h.dispatcher p hp
      exact ⟨fun hholds => hnot (hholds.of_openTwo h₁ h₂ (hlt p hp).1),
        fun hholds => hnot' (hholds.of_openTwo h₁ h₂ (hlt p hp).2)⟩
    · have hbelow := h.below q (List.mem_of_getElem? hl)
      exact ⟨hbelow.not_holds le_rfl, hbelow.not_holds (Nat.le_succ _)⟩
    · exact absurd rfl hne
  · intro p hp
    rw [hprocs, List.mem_append, List.mem_singleton] at hp
    rw [hpipes]
    rcases hp with hp | rfl
    · exact (h.below p hp).mono (Nat.le_add_right _ _)
    · have hbelow : Below s.fds s.pipes := hvalid.below
      exact hbelow.openTwo h₁ h₂

/-- A new driver closes the two ends that are not its own. -/
theorem closeEnds (h : Custody s) (hvalid : s.registry.Valid) (hk : s.procs[k]? = some p) {w r : ℕ}
    (hpc : p.mem.pc = .start w r) :
    p.Shrinks { p with fds := (p.fds.erase w).erase r, mem := { p.mem with pc := .top } } := by
  have hp := List.mem_of_getElem? hk
  obtain ⟨hread, hwrite⟩ := h.own p hp
  obtain ⟨hcommand, hreply⟩ := h.start p hp w r hpc
  have hne : p.command ≠ p.reply :=
    hvalid.pipes_ne p.child (List.mem_map_of_mem hp) p.child (List.mem_map_of_mem hp)
  have hcommand' : (p.fds.erase w).lookup r = some ⟨p.reply, .read⟩ :=
    lookup_erase_of_ne hreply hcommand (by simp)
  refine ⟨rfl, rfl, fun fd e hfd => lookup_of_erase (lookup_of_erase hfd), ?_, ?_, by simp⟩
  · rw [hread]
    exact lookup_erase_of_ne (lookup_erase_of_ne hread hcommand (by simp)) hcommand'
      (by simp [hne])
  · rw [hwrite]
    exact lookup_erase_of_ne (lookup_erase_of_ne hwrite hcommand (by simp [hne.symm])) hcommand'
      (by simp)

end Custody

/-! ### Every move -/

theorem driverMove_custody (h : Custody s) (hvalid : s.registry.Valid)
    (hk : s.procs[k]? = some p) (hmove : DriverMove s k p t) : Custody t := by
  obtain ⟨p', hnext, heq⟩ := hmove
  have hshrinks : p.Shrinks p' := by
    cases hnext with
    | goesOn mem follows => exact .mem follows
    | ends => exact .life p .zombie
    | closes w r pc => exact h.closeEnds hvalid hk pc
  rw [heq]
  exact (h.shrink hk hshrinks).same rfl rfl fun _ _ => id

theorem createDriver_custody {o : Outcome} (h : Custody s) (hvalid : s.registry.Valid)
    (hcreate : s.createDriver o = some t) : Custody t := by
  rcases createDriver_cases hcreate with ⟨-, rfl⟩ | ⟨drivers, slot, hslot, hrest⟩
  · exact h.same rfl rfl fun _ _ => id
  · obtain ⟨hvalid', -⟩ := freeSlot_valid hvalid hslot
    have h' : Custody { s with drivers } := h.same rfl rfl fun _ _ => id
    rcases hrest with ⟨u, l, hopens, -, rfl⟩ | ⟨r₁, w₁, r₂, w₂, pid, hforks⟩
    · exact (h'.opens hvalid' hopens).same rfl rfl fun _ _ => id
    · exact h'.forked hvalid' hforks

theorem send_custody (h : Custody s) (c : Call) : Custody (s.send c) := by
  unfold send
  split
  · exact h.same rfl rfl fun _ _ => id
  · split
    · split <;> exact h.same rfl rfl fun _ _ => id
    · exact h.same rfl rfl fun _ _ => id

theorem receive_custody {c : Call} {fd : ℕ} (h : Custody s) (hreceive : s.receive c fd = some t) :
    Custody t := by
  unfold receive at hreceive
  split at hreceive
  · split at hreceive
    · split at hreceive
      · cases hreceive
      · cases hreceive
        exact h.same rfl rfl fun _ _ => id
    · cases hreceive
      exact h.same rfl rfl fun _ _ => id
  · cases hreceive
    exact h.same rfl rfl fun _ _ => id

theorem step_custody {a : Action} (h : Custody s) (hvalid : s.registry.Valid)
    (hstep : step s a = some t) : Custody t := by
  cases step_move hstep with
  | goesOn => exact h.same rfl rfl fun _ _ => id
  | reap k _ hreap =>
    obtain ⟨p, i, d, hc⟩ := reap_collects hvalid hreap
    have h' : Custody (s.setProc k { p with life := .reaped }) :=
      h.shrink hc.proc (.life p .reaped)
    rw [hc.eq]
    exact h'.same rfl rfl fun fd e hfd => lookup_of_erase (lookup_of_erase hfd)
  | create o _ _ hcreate => exact createDriver_custody h hvalid hcreate
  | send c => exact send_custody h c
  | receive c fd _ _ hreceive => exact receive_custody h hreceive
  | driver _ k p _ _ hk _ hmove => exact driverMove_custody h hvalid hk hmove

/-! ### What is open -/

theorem held_command_read_iff (h : Custody s) (hk : s.procs[k]? = some p) :
    s.Held ⟨p.command, .read⟩ ↔ p.life = .live := by
  have hp := List.mem_of_getElem? hk
  constructor
  · rintro (⟨-, hholds⟩ | ⟨q, hq, hlive, hholds⟩)
    · exact absurd hholds (h.dispatcher p hp).1
    · obtain ⟨l, hl⟩ := List.mem_iff_getElem?.mp hq
      by_cases hkl : k = l
      · subst hkl
        rwa [Option.some.inj (hk.symm.trans hl)]
      · exact absurd hholds (h.others k l p q hk hl hkl).1
  · exact fun hlive => .inr ⟨p, hp, hlive, _, (h.own p hp).1⟩

theorem held_reply_write_iff (h : Custody s) (hk : s.procs[k]? = some p) :
    s.Held ⟨p.reply, .write⟩ ↔ p.life = .live := by
  have hp := List.mem_of_getElem? hk
  constructor
  · rintro (⟨-, hholds⟩ | ⟨q, hq, hlive, hholds⟩)
    · exact absurd hholds (h.dispatcher p hp).2
    · obtain ⟨l, hl⟩ := List.mem_iff_getElem?.mp hq
      by_cases hkl : k = l
      · subst hkl
        rwa [Option.some.inj (hk.symm.trans hl)]
      · exact absurd hholds (h.others k l p q hk hl hkl).2
  · exact fun hlive => .inr ⟨p, hp, hlive, _, (h.own p hp).2⟩

/-- As long as the dispatcher runs and has not collected the driver, it can be
answered. -/
theorem held_reply_read (hvalid : s.registry.Valid) (hrunning : s.Running) (hp : p ∈ s.procs)
    (hlife : p.life ≠ .reaped) : s.Held ⟨p.reply, .read⟩ := by
  have hw : p.child.waited = false := by simpa [Process.child] using hlife
  have hpc : p.child ∈ s.registry.children := List.mem_map_of_mem hp
  obtain ⟨d, hd, hactive, hpid⟩ := hvalid.slot p.child hpc hw
  obtain ⟨c, hc, hcw, hcpid, -, hread⟩ := hvalid.child d hd hactive
  obtain rfl := hvalid.eq_of_pid hc hpc hcw hw (hcpid.trans hpid)
  exact .inl ⟨hrunning, _, hread⟩

/-! ### What the first half of `send_command` does -/

theorem findDriver_eq_none {pid : Int32} (hvalid : s.registry.Valid)
    (hfind : s.findDriver pid = none) : s.addressee pid = none := by
  rw [addressee_eq_none]
  intro c hc hw hpid
  obtain ⟨d, hd, hactive, hdpid⟩ := hvalid.slot c hc hw
  have hnot := List.find?_eq_none.mp hfind d hd
  simp [hactive, hdpid, hpid] at hnot

theorem findDriver_eq_some {pid : Int32} {d : Driver} (hvalid : s.registry.Valid)
    (hfind : s.findDriver pid = some d) :
    ∃ (k : ℕ) (p : Process), s.procs[k]? = some p ∧ p.life ≠ .reaped ∧ p.pid = pid ∧
      s.fds.lookup d.writeFd = some ⟨p.command, .write⟩ ∧
      s.fds.lookup d.readFd = some ⟨p.reply, .read⟩ := by
  have hmatch := List.find?_some hfind
  simp only [Bool.and_eq_true, beq_iff_eq] at hmatch
  obtain ⟨c, hc, hw, hpid, hwrite, hread⟩ :=
    hvalid.child d (List.mem_of_find?_eq_some hfind) hmatch.2
  obtain ⟨p, hp, rfl⟩ := List.mem_map.mp hc
  obtain ⟨k, hk⟩ := List.mem_iff_getElem?.mp hp
  exact ⟨k, p, hk, by simpa [Process.child] using hw, hpid.trans hmatch.1, hwrite, hread⟩

/-- Either there is no such driver, or it is alive and gets the command, or it is
dead and the dispatcher is killed. -/
theorem send_cases (h : Custody s) (hvalid : s.registry.Valid) (c : Call) :
    (s.addressee c.pid = none ∧ s.send c = s.finish c (-1) (notFoundText c.pid)) ∨
      ∃ (k : ℕ) (p : Process) (fd : ℕ), s.procs[k]? = some p ∧ p.life ≠ .reaped ∧
        p.pid = c.pid ∧ s.fds.lookup fd = some ⟨p.reply, .read⟩ ∧
        (p.life = .live ∧ s.send c =
            { s.append p.command (message c.request.text) with pc := .receiving c fd } ∨
          p.life ≠ .live ∧ s.send c = { s with pc := .sigpipe }) := by
  cases hfind : s.findDriver c.pid with
  | none => exact .inl ⟨findDriver_eq_none hvalid hfind, by simp only [send, hfind]⟩
  | some d =>
    obtain ⟨k, p, hk, hlife, hpid, hwrite, hread⟩ := findDriver_eq_some hvalid hfind
    refine .inr ⟨k, p, d.readFd, hk, hlife, hpid, hread, ?_⟩
    by_cases hlive : p.life = .live
    · refine .inl ⟨hlive, ?_⟩
      simp only [send, hfind, hwrite, if_pos ((held_command_read_iff h hk).mpr hlive)]
    · refine .inr ⟨hlive, ?_⟩
      simp only [send, hfind, hwrite, if_neg (mt (held_command_read_iff h hk).mp hlive)]

/-- The second half waits for a driver that is alive, notices that it is not, or
gets what is in the pipe. -/
theorem receive_cases (h : Custody s) (c : Call) {fd : ℕ} (hk : s.procs[k]? = some p)
    (hfd : s.fds.lookup fd = some ⟨p.reply, .read⟩) :
    (s.buffer p.reply = [] ∧ p.life = .live ∧ s.receive c fd = none) ∨
      (s.buffer p.reply = [] ∧ p.life ≠ .live ∧
        s.receive c fd = some (s.finish c (-1) (notRespondingText c.pid))) ∨
      (s.buffer p.reply ≠ [] ∧ s.receive c fd =
        some ((s.consume p.reply).finish c 0 (cstr ((s.buffer p.reply).take readMax)))) := by
  by_cases hbuffer : s.buffer p.reply = []
  · by_cases hlive : p.life = .live
    · refine .inl ⟨hbuffer, hlive, ?_⟩
      simp only [receive, hfd, if_pos hbuffer, if_pos ((held_reply_write_iff h hk).mpr hlive)]
    · refine .inr (.inl ⟨hbuffer, hlive, ?_⟩)
      simp only [receive, hfd, if_pos hbuffer, if_neg (mt (held_reply_write_iff h hk).mp hlive)]
  · refine .inr (.inr ⟨hbuffer, ?_⟩)
    simp only [receive, hfd, if_neg hbuffer]

end UnixLessons.Taxi

import UnixLessons.Taxi.Registry

/-!
# The command `exit`

Before it ends, the dispatcher goes through its slots, and for each active one it closes the
write end of the command pipe and sends the driver a `SIGTERM`. Meanwhile the drivers go on,
and any of them may die before its signal is sent or delivered. Nobody is waited for any more.

`kill` goes by the pid alone. It reaches the driver in the slot because a pid is not used
again before `waitpid` has returned it.

## Main result

* `exit_ends_drivers`: the signals go to the drivers that are left, and to nobody else
-/

namespace UnixLessons.Taxi

open Text Descriptors Transition

/-- The dispatcher in the loop of `exit`: the next slot, what it has closed, each pid it has
signalled with the child that had it at that moment, and the drivers with a signal pending. -/
structure Shutdown where
  world : World
  next : ℕ
  closed : List (Option PipeEnd)
  signalled : List (Int32 × Option ℕ)
  pending : List ℕ

inductive ExitAction
  | slot
  | advance (k : ℕ) (now : Int64)
  | timeOut (k : ℕ)
  | die (k : ℕ)
  | sigterm (k : ℕ)
deriving DecidableEq

namespace Shutdown

def init (world : World) : Shutdown := ⟨world, 0, [], [], []⟩

/-- `kill` with `SIGTERM`. To a process that has died it makes no difference. -/
def kill (s : Shutdown) (pid : Int32) : Shutdown :=
  { s with
    signalled := s.signalled ++ [(pid, s.world.addressee pid)]
    pending := s.pending ++ (s.world.addressee pid).toList.filter fun k =>
      (s.world.live k).isSome }

/-- One round of the loop. -/
def visit (s : Shutdown) (d : Driver) : Shutdown :=
  if d.active then
    { s with
      world := { s.world with fds := s.world.fds.erase d.writeFd }
      closed := s.closed ++ [s.world.fds.lookup d.writeFd] }.kill d.pid
  else s

/-- The dispatcher goes on, a driver goes on, or a driver dies, by the signal or otherwise. -/
def step (s : Shutdown) : ExitAction → Option Shutdown
  | .slot =>
    if s.world.pc = .cleanup .exit then
      match s.world.drivers[s.next]? with
      | some d => some { s.visit d with next := s.next + 1 }
      | none => some { s with world := s.world.dispatch .exit }
    else none
  | .advance k now =>
    (s.world.live k).bind fun p => (s.world.advance k p now).map fun world => { s with world }
  | .timeOut k =>
    (s.world.live k).bind fun p => (s.world.timeOut k p).map fun world => { s with world }
  | .die k => (s.world.live k).map fun p => { s with world := s.world.die k p }
  | .sigterm k =>
    if k ∈ s.pending then (s.world.live k).map fun p => { s with world := s.world.die k p }
    else none

end Shutdown

variable {w : World} {s t : Shutdown} {a : ExitAction} {p : Process} {k : ℕ} {d : Driver}

/-- The slots the loop is through with, as far as they were active. -/
def visited (w : World) (n : ℕ) : List Driver := (w.drivers.take n).filter (·.active)

/-- The descriptors that are left when those of the slots are closed. -/
def closeAll (fds : Table) (drivers : List Driver) : Table :=
  drivers.foldl (fun fds d => fds.erase d.writeFd) fds

/-- How the loop has come on since it started in the state `w`. -/
structure Exiting (w : World) (s : Shutdown) : Prop where
  drivers : s.world.drivers = w.drivers
  children : s.world.procs.map Process.child = w.procs.map Process.child
  fds : s.world.fds = closeAll w.fds (visited w s.next)
  closed : s.closed = (visited w s.next).map fun d => w.fds.lookup d.writeFd
  signalled : ∀ e ∈ s.signalled, ∃ p k, e = (p.pid, some k) ∧ w.procs[k]? = some p ∧
    p.life ≠ .reaped
  pids : s.signalled.map Prod.fst = (visited w s.next).map Driver.pid
  pending : ∀ ⦃k p⦄, s.world.live k = some p → p.pid ∈ s.signalled.map Prod.fst → k ∈ s.pending
  pc : s.world.pc = .cleanup .exit ∨ s.world.pc = .ended ∧ w.drivers.length ≤ s.next

theorem lookup_closeAll {fds : Table} {drivers : List Driver} {fd : ℕ}
    (h : ∀ d ∈ drivers, d.writeFd ≠ fd) : (closeAll fds drivers).lookup fd = fds.lookup fd := by
  induction drivers generalizing fds with
  | nil => rfl
  | cons d drivers ih =>
    rw [closeAll, List.foldl_cons]
    rw [← closeAll, ih fun d hd => h d (List.mem_cons_of_mem _ hd)]
    exact AList.lookup_erase_ne (h d List.mem_cons_self).symm

theorem exiting_init (hpc : w.pc = .cleanup .exit) : Exiting w (.init w) where
  drivers := rfl
  children := rfl
  fds := by simp [Shutdown.init, visited, closeAll]
  closed := by simp [Shutdown.init, visited]
  signalled e he := by cases he
  pids := by simp [Shutdown.init, visited]
  pending k p _ h := by cases h
  pc := .inl hpc

/-! ### The drivers go on -/

theorem getElem?_children (h : Exiting w s) (k : ℕ) :
    (s.world.procs[k]?).map Process.child = (w.procs[k]?).map Process.child := by
  rw [← List.getElem?_map, h.children, List.getElem?_map]

theorem live_of_driverMove {u v : World} {j : ℕ} {q : Process} (hp : u.live k = some p)
    (hmove : World.DriverMove u k p v) (hq : v.live j = some q) :
    ∃ q', u.live j = some q' ∧ q'.pid = q.pid := by
  obtain ⟨p', hnext, heq⟩ := hmove
  obtain ⟨hpk, hlife⟩ := World.live_eq_some.mp hp
  obtain ⟨hqj, hqlife⟩ := World.live_eq_some.mp hq
  rw [heq] at hqj
  have hqj' : (u.procs.set k p')[j]? = some q := hqj
  rw [List.getElem?_set] at hqj'
  split at hqj'
  · rename_i hkj
    split at hqj'
    · obtain rfl := Option.some.inj hqj'
      refine ⟨p, by rw [← hkj]; exact hp, ?_⟩
      cases hnext <;> rfl
    · cases hqj'
  · exact ⟨q, World.live_eq_some.mpr ⟨hqj', hqlife⟩, rfl⟩

theorem Exiting.driverMove (h : Exiting w s) {world : World} (hp : s.world.live k = some p)
    (hmove : World.DriverMove s.world k p world) : Exiting w { s with world } := by
  obtain ⟨hpk, hlife⟩ := World.live_eq_some.mp hp
  have hregistry := World.registry_driverMove hpk hlife hmove
  have hpc : world.pc = s.world.pc := by
    obtain ⟨p', -, heq⟩ := hmove
    rw [heq]
  simp only [World.registry, Registry.mk.injEq] at hregistry
  obtain ⟨hdrivers, hfds, -, -, hchildren⟩ := hregistry
  refine ⟨hdrivers.trans h.drivers, hchildren.trans h.children, hfds.trans h.fds, h.closed,
    h.signalled, h.pids, fun j q hq hmem => ?_, hpc ▸ h.pc⟩
  obtain ⟨q', hq', hpid⟩ := live_of_driverMove hp hmove hq
  exact h.pending hq' (hpid ▸ hmem)

/-! ### The loop goes on -/

theorem visited_succ (hd : w.drivers[k]? = some d) :
    visited w (k + 1) = visited w k ++ if d.active then [d] else [] := by
  obtain ⟨hlt, rfl⟩ := List.getElem?_eq_some_iff.mp hd
  rw [visited, List.take_succ_eq_append_getElem hlt, List.filter_append, visited]
  congr 1
  cases h : w.drivers[k].active <;> simp [h]

/-- The child whose pid is in an active slot. -/
theorem Exiting.addressee (h : Exiting w s) (hvalid : w.registry.Valid) (hmem : d ∈ w.drivers)
    (hactive : d.active = true) : ∃ k p q, s.world.addressee d.pid = some k ∧
      w.procs[k]? = some p ∧ p.pid = d.pid ∧ p.life ≠ .reaped ∧
      s.world.procs[k]? = some q ∧ q.pid = d.pid ∧
      w.fds.lookup d.writeFd = some ⟨p.command, .write⟩ := by
  obtain ⟨c, hc, hwaited, hpid, hwrite, -⟩ := hvalid.child d hmem hactive
  obtain ⟨p, hp, rfl⟩ := List.mem_map.mp hc
  have hpid : p.pid = d.pid := hpid
  cases hk : s.world.addressee d.pid with
  | none =>
    rw [World.addressee_eq_none] at hk
    have hmem' : p.child ∈ s.world.registry.children := by
      simp only [World.registry]
      rw [h.children]
      exact List.mem_map_of_mem hp
    exact absurd hpid (hk p.child hmem' hwaited)
  | some k =>
    obtain ⟨hlt, hfound, -⟩ := List.findIdx?_eq_some_iff_getElem.mp hk
    have hq : s.world.procs[k]? = some s.world.procs[k] := List.getElem?_eq_getElem hlt
    have hfound : s.world.procs[k].life ≠ .reaped ∧ s.world.procs[k].pid = d.pid := by
      simpa using hfound
    obtain ⟨l, hl⟩ := List.mem_iff_getElem?.mp hp
    -- The children have not changed, and only one of them has this pid.
    have hchild := getElem?_children h k
    rw [hq, Option.map_some] at hchild
    obtain ⟨p', hp', heq⟩ := Option.map_eq_some_iff.mp hchild.symm
    have hp'pid : p'.pid = d.pid := (congrArg Child.pid heq).trans hfound.2
    have hp'waited : p'.child.waited = false := by
      rw [heq]
      simpa [Process.child] using hfound.1
    have hkl : k = l := by
      refine hvalid.pid_inj k l p'.child p.child ?_ ?_ hp'waited hwaited (hp'pid.trans hpid.symm)
      · simp [World.registry, hp']
      · simp [World.registry, hl]
    subst hkl
    obtain rfl : p' = p := Option.some.inj (hp'.symm.trans hl)
    exact ⟨k, p', _, rfl, hl, hpid, by simpa [Process.child] using hwaited, hq, hfound.2, hwrite⟩

theorem Exiting.visit (h : Exiting w s) (hvalid : w.registry.Valid)
    (hpc : s.world.pc = .cleanup .exit) (hd : w.drivers[s.next]? = some d) :
    Exiting w { s.visit d with next := s.next + 1 } := by
  have hvisited := visited_succ hd
  have hmem : d ∈ w.drivers := List.mem_of_getElem? hd
  rw [Shutdown.visit]
  split
  · rename_i hactive
    rw [if_pos hactive] at hvisited
    obtain ⟨k, p, q, hk, hp, hpid, hlife, hq, hqpid, hwrite⟩ :=
      h.addressee hvalid hmem hactive
    have haddressee : ({ s.world with fds := s.world.fds.erase d.writeFd } : World).addressee
        d.pid = some k := hk
    -- The descriptors of the slots are all different, so this one is still open.
    have hopen : s.world.fds.lookup d.writeFd = w.fds.lookup d.writeFd := by
      rw [h.fds]
      refine lookup_closeAll fun e he hfd => ?_
      obtain ⟨htake, heactive⟩ := List.mem_filter.mp he
      obtain ⟨i, hi⟩ := List.mem_iff_getElem?.mp htake
      rw [List.getElem?_take] at hi
      split at hi
      · rename_i hlt
        obtain ⟨c, hc, hwaited, hcpid, hcwrite, -⟩ :=
          hvalid.child e (List.mem_of_getElem? hi) heactive
        obtain ⟨p', hp', rfl⟩ := List.mem_map.mp hc
        have hcwrite : w.fds.lookup e.writeFd = some ⟨p'.command, .write⟩ := hcwrite
        rw [hfd, hwrite] at hcwrite
        have hcommand : p.command = p'.command := by
          injection hcwrite with hend
          injection hend
        obtain ⟨l, hl⟩ := List.mem_iff_getElem?.mp hp'
        have hkl : k = l := hvalid.pipes_inj k l p.child p'.child
          (by simp [World.registry, hp]) (by simp [World.registry, hl]) (.inl hcommand)
        subst hkl
        obtain rfl : p = p' := Option.some.inj (hp.symm.trans hl)
        exact hvalid.first i s.next e d hlt hi hd hactive (hcpid.symm.trans hpid)
      · cases hi
    refine ⟨h.drivers, h.children, ?_, ?_, ?_, ?_, ?_, .inl hpc⟩
    · change s.world.fds.erase d.writeFd = _
      rw [hvisited, closeAll, List.foldl_append, ← closeAll, h.fds]
      rfl
    · change s.closed ++ [s.world.fds.lookup d.writeFd] = _
      rw [hvisited, List.map_append, h.closed, hopen]
      rfl
    · intro e he
      rcases List.mem_append.mp he with he | he
      · exact h.signalled e he
      · obtain rfl := List.mem_singleton.mp he
        exact ⟨p, k, by rw [haddressee, hpid], hp, hlife⟩
    · change (s.signalled ++ [_]).map Prod.fst = _
      rw [hvisited, List.map_append, List.map_append, h.pids]
      rfl
    · intro j x hx hmem
      have hx' : s.world.live j = some x := hx
      change x.pid ∈ (s.signalled ++ [_]).map Prod.fst at hmem
      change j ∈ s.pending ++ _
      rw [List.map_append] at hmem
      rcases List.mem_append.mp hmem with hmem | hmem
      · exact List.mem_append_left _ (h.pending hx' hmem)
      · refine List.mem_append_right _ (List.mem_filter.mpr ⟨?_, ?_⟩)
        · have hxpid : x.pid = d.pid := List.mem_singleton.mp hmem
          obtain ⟨hxj, hxlife⟩ := World.live_eq_some.mp hx'
          -- The live process with this pid is the one `kill` has found.
          have hchildj := getElem?_children h j
          rw [hxj, Option.map_some] at hchildj
          obtain ⟨y, hy, heq⟩ := Option.map_eq_some_iff.mp hchildj.symm
          have hjk : j = k := by
            refine hvalid.pid_inj j k y.child p.child ?_ ?_ ?_ ?_ ?_
            · simp [World.registry, hy]
            · simp [World.registry, hp]
            · rw [heq]
              simp [Process.child, hxlife]
            · simpa [Process.child] using hlife
            · exact ((congrArg Child.pid heq).trans hxpid).trans hpid.symm
          rw [haddressee, hjk]
          exact List.mem_singleton_self k
        · have hlive : ({ s.world with fds := s.world.fds.erase d.writeFd } : World).live j =
              some x := hx'
          rw [hlive]
          rfl
  · rename_i hactive
    rw [if_neg hactive, List.append_nil] at hvisited
    refine ⟨h.drivers, h.children, ?_, ?_, h.signalled, ?_, h.pending, .inl hpc⟩
    · rw [hvisited]
      exact h.fds
    · rw [hvisited]
      exact h.closed
    · rw [hvisited]
      exact h.pids

theorem Exiting.step (h : Exiting w s) (hvalid : w.registry.Valid)
    (hstep : s.step a = some t) : Exiting w t := by
  cases a with
  | slot =>
    simp only [Shutdown.step] at hstep
    split at hstep
    · rename_i hpc
      split at hstep
      · rename_i d hd
        cases hstep
        exact h.visit hvalid hpc (h.drivers ▸ hd)
      · rename_i hnone
        cases hstep
        refine ⟨h.drivers, h.children, h.fds, h.closed, h.signalled, h.pids, h.pending,
          .inr ⟨rfl, ?_⟩⟩
        rw [h.drivers] at hnone
        exact List.getElem?_eq_none_iff.mp hnone
    · cases hstep
  | advance k now =>
    obtain ⟨p, hp, hstep⟩ := Option.bind_eq_some_iff.mp hstep
    obtain ⟨world, hworld, rfl⟩ := Option.map_eq_some_iff.mp hstep
    exact h.driverMove hp (World.advance_driverMove hworld)
  | timeOut k =>
    obtain ⟨p, hp, hstep⟩ := Option.bind_eq_some_iff.mp hstep
    obtain ⟨world, hworld, rfl⟩ := Option.map_eq_some_iff.mp hstep
    exact h.driverMove hp (World.timeOut_driverMove hworld)
  | die k =>
    obtain ⟨p, hp, rfl⟩ := Option.map_eq_some_iff.mp hstep
    exact h.driverMove hp World.die_driverMove
  | sigterm k =>
    simp only [Shutdown.step] at hstep
    split at hstep
    · obtain ⟨p, hp, rfl⟩ := Option.map_eq_some_iff.mp hstep
      exact h.driverMove hp World.die_driverMove
    · cases hstep

/-- Every signal goes to a driver that the dispatcher has not waited for, no driver gets two,
and nothing is closed but the command pipes of such drivers, each while it is open. The loop
can always go on; when it is over, a signal is pending for every driver that is still alive. -/
theorem exit_ends_drivers {acts : List Action} {as : List ExitAction}
    (hrun : run step World.init acts = some w) (hpc : w.pc = .cleanup .exit)
    (hexit : run Shutdown.step (.init w) as = some s) :
    (∀ e ∈ s.signalled, ∃ p k, e = (p.pid, some k) ∧ w.procs[k]? = some p ∧ p.life ≠ .reaped) ∧
      (s.signalled.map Prod.fst).Nodup ∧
      (∀ x ∈ s.closed, ∃ p ∈ w.procs, p.life ≠ .reaped ∧ x = some ⟨p.command, .write⟩) ∧
      (s.world.pc = .ended ∨ ∃ t, s.step .slot = some t) ∧
      (s.world.pc = .ended → ∀ k p, s.world.live k = some p → k ∈ s.pending) := by
  have hvalid := run_valid hrun
  have hkeeps : Preserved Shutdown.step (Exiting w) := fun _ _ _ h hstep => h.step hvalid hstep
  have h := hkeeps.run (exiting_init hpc) hexit
  refine ⟨h.signalled, ?_, ?_, ?_, ?_⟩
  · rw [h.pids]
    have hsub : (visited w s.next).Sublist (w.drivers.filter (·.active)) :=
      (List.take_sublist _ _).filter _
    exact (hvalid.active_pids_nodup).sublist (hsub.map _)
  · intro x hx
    rw [h.closed] at hx
    obtain ⟨d, hd, rfl⟩ := List.mem_map.mp hx
    obtain ⟨hmem, hactive⟩ := List.mem_filter.mp hd
    obtain ⟨p, hp, hlife, -, hwrite, -⟩ :=
      (RegistryAgrees.of_valid hvalid).ends d (List.mem_of_mem_take hmem) hactive
    exact ⟨p, hp, hlife, hwrite⟩
  · refine h.pc.symm.imp And.left fun hpc => ?_
    simp only [Shutdown.step, hpc]
    cases s.world.drivers[s.next]? with
    | none => exact ⟨_, rfl⟩
    | some d => exact ⟨_, rfl⟩
  · intro hended k p hp
    have hall : visited w s.next = w.drivers.filter (·.active) := by
      rcases h.pc with hpc | ⟨-, hle⟩
      · rw [hended] at hpc
        cases hpc
      · rw [visited, List.take_of_length_le hle]
    refine h.pending hp ?_
    obtain ⟨hpk, hlife⟩ := World.live_eq_some.mp hp
    have hchild := getElem?_children h k
    rw [hpk, Option.map_some] at hchild
    obtain ⟨q, hq, heq⟩ := Option.map_eq_some_iff.mp hchild.symm
    obtain ⟨d, hd, hactive, hpid⟩ := hvalid.slot q.child
      (List.mem_map_of_mem (List.mem_of_getElem? hq)) (by rw [heq]; simp [Process.child, hlife])
    rw [h.pids, hall]
    refine List.mem_map.mpr ⟨d, List.mem_filter.mpr ⟨hd, hactive⟩, ?_⟩
    exact hpid.trans (congrArg Child.pid heq)

/-- Two drivers are created; one of them dies while the loop is at the first slot. -/
def twoDrivers : List Action :=
  [.type .createDriver, .collected, .create (.forked 3 4 5 6 10),
    .type .createDriver, .collected, .create (.forked 3 6 7 8 11), .type .exit]

def exitLoop : List ExitAction := [.slot, .die 1, .slot, .slot]

theorem exit_ends_drivers_two :
    ∃ w s, run step World.init twoDrivers = some w ∧ run Shutdown.step (.init w) exitLoop = some s ∧
      s.world.pc = .ended ∧ s.pending = [0] ∧ ∀ k p, s.world.live k = some p → k ∈ s.pending := by
  have hend : ((run step World.init twoDrivers).bind fun w =>
      (run Shutdown.step (.init w) exitLoop).map fun s => (w.pc, s.world.pc, s.pending)) =
        some (.cleanup .exit, .ended, [0]) := by decide
  obtain ⟨w, hw, hend⟩ := Option.bind_eq_some_iff.mp hend
  obtain ⟨s, hs, hpair⟩ := Option.map_eq_some_iff.mp hend
  obtain ⟨hpc, hended, hpending⟩ :
      w.pc = .cleanup .exit ∧ s.world.pc = .ended ∧ s.pending = [0] := by
    simpa using hpair
  exact ⟨w, s, hw, hs, hended, hpending, (exit_ends_drivers hw hpc hs).2.2.2.2 hended⟩

end UnixLessons.Taxi

import UnixLessons.Taxi.Moves
import UnixLessons.Taxi.Slots

/-!
# The registry of drivers

Every move of the system leaves what the dispatcher knows about its drivers as it
is, except for the creation of a driver and the collection of a dead one, and
these keep the slots, the children and the descriptors in agreement.

## Main results

* `step_registry_eq`: the other moves do not touch the registry
* `step_valid`: every move keeps the invariant
* `registry_agrees`: slots, pids and descriptors in every state of every run
-/

namespace UnixLessons.Taxi

open Text Descriptors Transition

variable {s t : World} {p p' : Process} {k : ℕ}

/-- A process as the dispatcher can tell. -/
def Process.child (p : Process) : Child := ⟨p.pid, p.life == .reaped, p.command, p.reply⟩

/-- What the dispatcher knows. -/
def World.registry (s : World) : Registry :=
  ⟨s.drivers, s.fds, s.pipes, s.closed, s.procs.map Process.child⟩

namespace World

/-! ### Moves that do not touch the registry -/

theorem registry_driverMove (hk : s.procs[k]? = some p) (hlive : p.life = .live)
    (h : DriverMove s k p t) : t.registry = s.registry := by
  obtain ⟨p', hnext, heq⟩ := h
  have hchild : p'.child = p.child := by
    cases hnext with
    | ends => simp [Process.child, hlive]
    | _ => rfl
  obtain ⟨hlt, rfl⟩ := List.getElem?_eq_some_iff.mp hk
  have hsame : (s.procs.map Process.child).set k s.procs[k].child = s.procs.map Process.child := by
    have hlt' : k < (s.procs.map Process.child).length := by rwa [List.length_map]
    rw [← List.set_getElem_self hlt', List.getElem_map]
    simp
  rw [heq]
  simp only [registry, List.map_set, hchild, hsame]

theorem registry_send (c : Call) : (s.send c).registry = s.registry := by
  rw [send]
  split
  · rfl
  · split
    · split <;> rfl
    · rfl

theorem registry_receive {c : Call} {fd : ℕ} (h : s.receive c fd = some t) :
    t.registry = s.registry := by
  unfold receive at h
  split at h
  · split at h
    · split at h
      · cases h
      · cases h
        rfl
    · cases h
      rfl
  · cases h
    rfl

/-! ### Creating and collecting -/

theorem freeSlot_eq_none {drivers : List Driver} :
    freeSlot drivers = none ↔ (∀ d ∈ drivers, d.active = true) ∧ maxDrivers ≤ drivers.length := by
  unfold freeSlot
  split
  · rename_i slot hslot
    obtain ⟨hlt, hfree, -⟩ := List.findIdx?_eq_some_iff_getElem.mp hslot
    simp only [reduceCtorEq, false_iff, not_and]
    intro hall
    simp [hall _ (List.getElem_mem hlt)] at hfree
  · rename_i hnone
    rw [List.findIdx?_eq_none_iff] at hnone
    have hall : ∀ d ∈ drivers, d.active = true := fun d hd => by simpa using hnone d hd
    simp only [ite_eq_left_iff, reduceCtorEq, imp_false, not_not, ge_iff_le]
    exact ⟨fun hlen => ⟨hall, hlen⟩, And.right⟩

theorem freeSlot_valid {drivers : List Driver} {slot : ℕ} (h : s.registry.Valid)
    (hslot : freeSlot s.drivers = some (drivers, slot)) :
    { s with drivers }.registry.Valid ∧ ∃ d, drivers[slot]? = some d ∧ d.active = false ∧
      ∀ (j : ℕ) (e : Driver), j < slot → drivers[j]? = some e → e.active = true := by
  unfold freeSlot at hslot
  split at hslot
  · rename_i i hi
    cases hslot
    obtain ⟨hlt, hfree, hbefore⟩ := List.findIdx?_eq_some_iff_getElem.mp hi
    refine ⟨h, _, List.getElem?_eq_getElem hlt, by simpa using hfree, fun j e hj he => ?_⟩
    obtain ⟨hjlt, rfl⟩ := List.getElem?_eq_some_iff.mp he
    simpa using hbefore j hj
  · rename_i hnone
    split at hslot
    · cases hslot
    · cases hslot
      rw [List.findIdx?_eq_none_iff] at hnone
      refine ⟨h.extended (Nat.lt_of_not_le ‹_›), .zero, by simp, rfl, fun j e hj he => ?_⟩
      rw [List.getElem?_append_left hj] at he
      simpa using hnone e (List.mem_of_getElem? he)

theorem addressee_eq_none {pid : Int32} :
    s.addressee pid = none ↔ ∀ c ∈ s.registry.children, c.waited = false → c.pid ≠ pid := by
  simp only [addressee, List.findIdx?_eq_none_iff, registry, List.mem_map,
    forall_exists_index, and_imp, forall_apply_eq_imp_iff₂, Process.child]
  refine forall₂_congr fun p _ => ?_
  cases p.life <;> simp

theorem pipe_valid {r w : ℕ} (h : s.registry.Valid) (hpipe : s.pipe r w = some t) :
    t.registry.Valid := by
  obtain ⟨hunused, rfl⟩ := pipe_eq_some hpipe
  exact h.opened (Nat.le_succ _) (h.below.openPipe hunused.2.2)
    fun _ _ => lookup_openPipe_of_lookup hunused

theorem Opens.valid (hopens : Opens s t) (h : s.registry.Valid) : t.registry.Valid := by
  induction hopens with
  | refl => exact h
  | pipe _ hpipe ih => exact pipe_valid ih hpipe

theorem createDriver_valid {o : Outcome} (h : s.registry.Valid)
    (hcreate : s.createDriver o = some t) : t.registry.Valid := by
  rcases createDriver_cases hcreate with ⟨-, rfl⟩ | ⟨drivers, slot, hslot, hrest⟩
  · exact h
  · obtain ⟨h', d, hd, hfree, hbefore⟩ := freeSlot_valid h hslot
    rcases hrest with ⟨u, l, hopens, -, rfl⟩ | ⟨r₁, w₁, r₂, w₂, pid, hforks⟩
    · exact hopens.valid h'
    · rw [hforks.eq]
      simp only [registry, List.map_append]
      exact h'.forked hd hfree hbefore (addressee_eq_none.mp hforks.free) hforks.first hforks.second

/-- What `cleanup_zombies` does with the dead child `k`: the slot found is its own,
and its two ends are closed. -/
structure Collects (s : World) (k : ℕ) (t : World) (p : Process) (i : ℕ) (d : Driver) : Prop where
  proc : s.procs[k]? = some p
  zombie : p.life = .zombie
  cleanup : ∃ c, s.pc = .cleanup c
  found : s.drivers.findIdx? (fun d => d.pid == p.pid) = some i
  slot : s.drivers[i]? = some d
  active : d.active = true
  pid : d.pid = p.pid
  write : s.fds.lookup d.writeFd = some ⟨p.command, .write⟩
  read : s.fds.lookup d.readFd = some ⟨p.reply, .read⟩
  eq : t = { s.setProc k { p with life := .reaped } with
    drivers := s.drivers.set i { d with active := false }
    fds := (s.fds.erase d.writeFd).erase d.readFd
    closed := s.closed ++ [some ⟨p.command, .write⟩, some ⟨p.reply, .read⟩]
    out := s.out ++ [.terminated p.pid] }

theorem Collects.unwaited {i : ℕ} {d : Driver} (h : Collects s k t p i d) :
    s.registry.children[k]? = some p.child ∧ p.child.waited = false :=
  ⟨by simp [registry, h.proc], by simp [Process.child, h.zombie]⟩

theorem reap_collects (h : s.registry.Valid) (hreap : s.reap k = some t) :
    ∃ p i d, Collects s k t p i d := by
  unfold reap at hreap
  split at hreap
  · rename_i c p hpc hk
    split at hreap
    · rename_i hzombie
      have hkc : s.registry.children[k]? = some p.child := by
        simp [registry, hk]
      have hw : p.child.waited = false := by simp [Process.child, hzombie]
      obtain ⟨i, d, hfind, hi, hactive, hpid⟩ := h.findIdx?_pid (List.mem_of_getElem? hkc) hw
      obtain ⟨hwrite, hread, -⟩ := h.collected hkc hw hi hactive hpid
      have hfind' : s.drivers.findIdx? (fun d => d.pid == p.pid) = some i := hfind
      have hi' : s.drivers[i]? = some d := hi
      have hwrite' : s.fds.lookup d.writeFd = some ⟨p.command, .write⟩ := hwrite
      have hread' : (s.fds.erase d.writeFd).lookup d.readFd = some ⟨p.reply, .read⟩ := hread
      simp only [setProc, hfind', hi', Option.map_some, Option.some_inj, hwrite', hread'] at hreap
      exact ⟨p, i, d, hk, hzombie, ⟨c, hpc⟩, hfind, hi, hactive, hpid, hwrite,
        lookup_of_erase hread, hreap.symm⟩
    · cases hreap
  · cases hreap

theorem Collects.valid {i : ℕ} {d : Driver} (h : Collects s k t p i d) (hvalid : s.registry.Valid) :
    t.registry.Valid := by
  obtain ⟨-, -, hvalid'⟩ := hvalid.collected h.unwaited.1 h.unwaited.2 h.slot h.active h.pid
  rw [h.eq]
  simp only [registry, setProc, List.map_set]
  exact hvalid'

end World

open World

/-! ### Every move -/

theorem step_registry_eq {a : Action} (hstep : step s a = some t)
    (hreap : ∀ k, a ≠ .reap k) (hcreate : ∀ o, a ≠ .create o) : t.registry = s.registry := by
  cases step_move hstep with
  | goesOn => rfl
  | reap k => exact absurd rfl (hreap k)
  | create o => exact absurd rfl (hcreate o)
  | send c => exact registry_send c
  | receive c fd _ _ hreceive => exact registry_receive hreceive
  | driver _ k p _ _ hk hlive hmove => exact registry_driverMove hk hlive hmove

/-- Every move keeps slots, children and descriptors in agreement. -/
theorem step_valid {a : Action} (h : s.registry.Valid) (hstep : step s a = some t) :
    t.registry.Valid := by
  cases step_move hstep with
  | reap k _ hreap =>
    obtain ⟨p, i, d, hcollects⟩ := reap_collects h hreap
    exact hcollects.valid h
  | create o _ _ hcreate => exact createDriver_valid h hcreate
  | goesOn => exact h
  | send c => exact registry_send (s := s) c ▸ h
  | receive c fd _ _ hreceive => exact registry_receive hreceive ▸ h
  | driver _ k p _ _ hk hlive hmove => exact registry_driverMove hk hlive hmove ▸ h

theorem run_valid {acts : List Action} (hrun : run step World.init acts = some s) :
    s.registry.Valid := by
  have hpreserved : Preserved step fun s => s.registry.Valid := fun _ _ _ => step_valid
  have hinit : World.init.registry.Valid := Registry.Valid.init
  exact hpreserved.run hinit hrun

/-! ### The main result -/

/-- A driver that was forked and not waited for yet. -/
def Process.unreaped (p : Process) : Bool := p.life != .reaped

/-- Slots, drivers and descriptors agree. -/
structure RegistryAgrees (s : World) : Prop where
  /-- The pids in the active slots are those of the unreaped drivers, each once. -/
  pids : ((s.drivers.filter (·.active)).map Driver.pid).Perm
    ((s.procs.filter (·.unreaped)).map Process.pid)
  pids_nodup : ((s.procs.filter (·.unreaped)).map Process.pid).Nodup
  /-- An active slot has the two ends of its driver open. -/
  ends : ∀ d ∈ s.drivers, d.active = true → ∃ p ∈ s.procs, p.life ≠ .reaped ∧ p.pid = d.pid ∧
    s.fds.lookup d.writeFd = some ⟨p.command, .write⟩ ∧
    s.fds.lookup d.readFd = some ⟨p.reply, .read⟩
  fds_nodup : ((s.drivers.filter (·.active)).flatMap fun d => [d.writeFd, d.readFd]).Nodup
  /-- The ends of a reaped driver were closed once, those of any other never. -/
  closed_once : ∀ p ∈ s.procs,
    s.closed.count (some ⟨p.command, .write⟩) = (if p.life = .reaped then 1 else 0) ∧
    s.closed.count (some ⟨p.reply, .read⟩) = (if p.life = .reaped then 1 else 0)
  /-- Nothing else was closed, and nothing that was not open. -/
  closed_own : ∀ x ∈ s.closed, ∃ p ∈ s.procs, p.life = .reaped ∧
    (x = some ⟨p.command, .write⟩ ∨ x = some ⟨p.reply, .read⟩)
  count_le : s.drivers.length ≤ maxDrivers

theorem unwaited_eq :
    ((s.registry.children.filter (!·.waited)).map Child.pid) =
      (s.procs.filter (·.unreaped)).map Process.pid := by
  simp only [World.registry, List.filter_map, List.map_map]
  congr 1

theorem RegistryAgrees.of_valid (h : s.registry.Valid) : RegistryAgrees s where
  pids := unwaited_eq ▸ h.active_pids_perm
  pids_nodup := unwaited_eq ▸ h.unwaited_pids_nodup
  ends := fun d hd hactive => by
    obtain ⟨c, hc, hw, hpid, hends⟩ := h.child d hd hactive
    obtain ⟨p, hp, rfl⟩ := List.mem_map.mp hc
    exact ⟨p, hp, by simpa [Process.child] using hw, hpid, hends⟩
  fds_nodup := h.active_fds_nodup
  closed_once := fun p hp => by
    obtain ⟨hwrite, hread⟩ := h.closed_count p.child (List.mem_map_of_mem hp)
    have hbool : p.child.waited.toNat = if p.life = .reaped then 1 else 0 := by
      cases hlife : p.life <;> simp [Process.child, hlife]
    exact ⟨hwrite.trans hbool, hread.trans hbool⟩
  closed_own := fun x hx => by
    obtain ⟨c, hc, hw, hclosed⟩ := h.closed_of x hx
    obtain ⟨p, hp, rfl⟩ := List.mem_map.mp hc
    exact ⟨p, hp, by simpa [Process.child] using hw, hclosed⟩
  count_le := h.length_le

theorem createDriver_out {o : Outcome} (hcreate : s.createDriver o = some t) :
    t.out = s.out ++ [.maximumReached] ↔ freeSlot s.drivers = none := by
  rcases createDriver_cases hcreate with
    ⟨hnone, rfl⟩ | ⟨drivers, slot, hslot, ⟨u, l, hopens, hl, rfl⟩ |
      ⟨r₁, w₁, r₂, w₂, pid, hforks⟩⟩
  · simp [hnone, giveUp]
  · simp [hslot, giveUp, hopens.frame, hl]
  · simp [hslot, hforks.eq]

theorem freeSlot_eq_none_iff (h : s.registry.Valid) :
    freeSlot s.drivers = none ↔ (s.drivers.filter (·.active)).length = maxDrivers := by
  have hlen : s.drivers.length ≤ maxDrivers := h.length_le
  rw [freeSlot_eq_none]
  constructor
  · rintro ⟨hall, hmax⟩
    rw [List.filter_eq_self.mpr hall]
    exact hlen.antisymm hmax
  · intro hfull
    have hle := List.length_filter_le (fun d : Driver => d.active) s.drivers
    have hall : (s.drivers.filter (·.active)).length = s.drivers.length := by omega
    exact ⟨List.length_filter_eq_length_iff.mp hall, by omega⟩

/-- In every state of every run the active slots are those of the unreaped
drivers, `cleanup_zombies` finds the slot of the driver that died, whatever pids
the other slots have kept, and `create_driver` refuses exactly when as many
drivers as there are slots were not collected yet. -/
theorem registry_agrees {acts : List Action} (hrun : run step World.init acts = some s) :
    RegistryAgrees s ∧
      (∀ k t, step s (.reap k) = some t → ∃ p i d, s.procs[k]? = some p ∧ p.life = .zombie ∧
        s.drivers.findIdx? (fun d => d.pid == p.pid) = some i ∧ s.drivers[i]? = some d ∧
        d.active = true ∧ d.pid = p.pid ∧ s.fds.lookup d.writeFd = some ⟨p.command, .write⟩ ∧
        s.fds.lookup d.readFd = some ⟨p.reply, .read⟩ ∧
        t.closed = s.closed ++ [some ⟨p.command, .write⟩, some ⟨p.reply, .read⟩]) ∧
      ∀ o t, step s (.create o) = some t →
        (t.out = s.out ++ [.maximumReached] ↔
          (s.procs.filter (·.unreaped)).length = maxDrivers) := by
  have h := run_valid hrun
  refine ⟨.of_valid h, fun k t hreap => ?_, fun o t hcreate => ?_⟩
  · obtain ⟨p, i, d, hc⟩ := reap_collects h hreap
    exact ⟨p, i, d, hc.proc, hc.zombie, hc.found, hc.slot, hc.active, hc.pid, hc.write, hc.read,
      congrArg World.closed hc.eq⟩
  · simp only [step] at hcreate
    split at hcreate
    · have hlength := (RegistryAgrees.of_valid h).pids.length_eq
      rw [List.length_map, List.length_map] at hlength
      rw [createDriver_out hcreate, freeSlot_eq_none_iff h, hlength]
    · cases hcreate

/-- Two drivers are created and collected, and a third one gets the pid of the
second. -/
def recycled : List Action :=
  [.type .createDriver, .collected, .create (.forked 3 4 5 6 10),
    .type .createDriver, .collected, .create (.forked 3 6 7 8 11),
    .die 1, .type .other, .reap 1, .collected, .die 0,
    .type .createDriver, .reap 0, .collected, .create (.forked 3 4 5 6 11),
    .die 2, .type .other]

theorem registry_agrees_recycled :
    ∃ s, run step World.init recycled = some s ∧ RegistryAgrees s ∧
      s.drivers = [⟨11, 4, 5, true⟩, ⟨11, 6, 7, false⟩] := by
  have hend : (run step World.init recycled).map World.drivers =
      some [⟨11, 4, 5, true⟩, ⟨11, 6, 7, false⟩] := by decide
  obtain ⟨s, hrun, hdrivers⟩ := Option.map_eq_some_iff.mp hend
  exact ⟨s, hrun, (registry_agrees hrun).1, hdrivers⟩

end UnixLessons.Taxi

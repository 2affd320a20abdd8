import UnixLessons.Taxi.Dispatcher

/-!
# What a move can do

The moves of the system that are made of several steps of the program, stated once
for all: a driver changes nothing but itself and the contents of pipes, and
`create_driver` refuses, gives up after opening some pipes, or forks.

## Main results

* `advance_driverMove`, `timeOut_driverMove`, `die_driverMove`: moves of a driver
* `createDriver_cases`: the outcomes of `create_driver`
* `step_move`: every move, by what it is about
-/

namespace UnixLessons.Taxi

open Text Descriptors

variable {s t : World} {p p' : Process} {k : ℕ}

namespace World

theorem live_eq_some : s.live k = some p ↔ s.procs[k]? = some p ∧ p.life = .live := by
  simp [live, Option.filter_eq_some_iff]

/-! ### Drivers -/

/-- What one move makes of a driver. -/
inductive Next (p : Process) : Process → Prop
  /-- It goes on in its loop. -/
  | goesOn (mem : DriverState) (follows : p.mem.Follows mem) : Next p { p with mem }
  | ends : Next p { p with life := .zombie }
  /-- Right after `fork` it closes the two ends that are not its own. -/
  | closes (w r : ℕ) (pc : p.mem.pc = .start w r) :
    Next p { p with fds := (p.fds.erase w).erase r, mem := { p.mem with pc := .top } }

/-- A move of the driver `k`: the rest of the system is as before, except for the
contents of pipes. -/
def DriverMove (s : World) (k : ℕ) (p : Process) (t : World) : Prop :=
  ∃ p', Next p p' ∧ t = { s with procs := s.procs.set k p', buffer := t.buffer }

theorem die_driverMove : DriverMove s k p (s.die k p) := ⟨_, .ends, rfl⟩

theorem resume_driverMove {mem : DriverState} (h : p.mem.Follows mem) :
    DriverMove s k p (s.resume k p mem) := ⟨_, .goesOn mem h, rfl⟩

theorem advance_driverMove {now : Int64} (h : s.advance k p now = some t) :
    DriverMove s k p t := by
  have htop : p.mem.Follows { p.mem with pc := .top } := ⟨rfl, rfl, by simp, List.prefix_rfl⟩
  unfold advance at h
  split at h
  · rename_i w r hpc
    cases h
    exact ⟨_, .closes w r hpc, rfl⟩
  · cases h
    exact resume_driverMove (p.mem.enterSelect_follows now)
  · unfold readCommand at h
    split at h
    · split at h
      · split at h
        · cases h
        · cases h
          exact die_driverMove
      · rename_i pipe _ _
        cases h
        exact ⟨_, .goesOn { p.mem with pc := .handle (cstr ((s.buffer pipe).take readMax)) }
          ⟨rfl, rfl, by simp, List.prefix_rfl⟩, rfl⟩
    · cases h
      exact die_driverMove
  · obtain ⟨mem, hmem, rfl⟩ := Option.map_eq_some_iff.mp h
    exact resume_driverMove (DriverState.handle_follows hmem)
  · cases h
    unfold writeReply
    split
    · split
      · exact ⟨_, .goesOn _ htop, rfl⟩
      · exact die_driverMove
    · exact resume_driverMove htop

theorem timeOut_driverMove (h : s.timeOut k p = some t) : DriverMove s k p t := by
  unfold timeOut at h
  split at h
  · split at h
    · cases h
      exact resume_driverMove p.mem.timedOut_follows
    · cases h
  · cases h

/-! ### Creating a driver -/

theorem pipe_eq_some {r w : ℕ} (h : s.pipe r w = some t) :
    Unused s.fds r w ∧ t = { s with
      fds := openPipe s.fds r w s.pipes, pipes := s.pipes + 1
      buffer := Function.update s.buffer s.pipes [] } := by
  unfold pipe at h
  split at h
  · exact ⟨‹_›, (Option.some.inj h).symm⟩
  · cases h

/-- The dispatcher opens pipes. -/
inductive Opens (s : World) : World → Prop
  | refl : Opens s s
  | pipe {t u : World} {r w : ℕ} (opens : Opens s t) (pipe : t.pipe r w = some u) : Opens s u

/-- Opening pipes changes the descriptors and the contents of new pipes only. -/
theorem Opens.frame (h : Opens s t) :
    t.drivers = s.drivers ∧ t.pc = s.pc ∧ t.procs = s.procs ∧ t.exchanges = s.exchanges ∧
      t.out = s.out ∧ s.pipes ≤ t.pipes ∧ ∀ pipe < s.pipes, t.buffer pipe = s.buffer pipe := by
  induction h with
  | refl => exact ⟨rfl, rfl, rfl, rfl, rfl, le_rfl, fun _ _ => rfl⟩
  | pipe _ hpipe ih =>
    obtain ⟨hdrivers, hpc, hprocs, hexchanges, hout, hpipes, hbuffer⟩ := ih
    obtain ⟨-, rfl⟩ := pipe_eq_some hpipe
    refine ⟨hdrivers, hpc, hprocs, hexchanges, hout, hpipes.trans (Nat.le_succ _),
      fun pipe hlt => ?_⟩
    exact (Function.update_of_ne (Nat.ne_of_lt (hlt.trans_le hpipes)) _ _).trans
      (hbuffer pipe hlt)

/-- `create_driver` has forked a child, with two new pipes between them. -/
structure Forks (s : World) (slot : ℕ) (t : World) (r₁ w₁ r₂ w₂ : ℕ) (pid : Int32) : Prop where
  first : Unused s.fds r₁ w₁
  second : Unused (openPipe s.fds r₁ w₁ s.pipes) r₂ w₂
  free : s.addressee pid = none
  eq : t = { s with
    drivers := s.drivers.set slot ⟨pid, w₁, r₂, true⟩, pc := .prompt
    fds := keepTwo s.fds r₁ w₁ r₂ w₂ s.pipes, pipes := s.pipes + 2
    buffer := Function.update (Function.update s.buffer s.pipes []) (s.pipes + 1) []
    procs := s.procs ++ [⟨pid, .live, openTwo s.fds r₁ w₁ r₂ w₂ s.pipes, .init r₁ w₂ w₁ r₂,
      s.pipes, s.pipes + 1⟩]
    out := s.out ++ [.created pid slot] }

theorem createDriver_cases {o : Outcome} (h : s.createDriver o = some t) :
    (freeSlot s.drivers = none ∧ t = s.giveUp .maximumReached) ∨
      ∃ drivers slot, freeSlot s.drivers = some (drivers, slot) ∧
        ((∃ u l, Opens { s with drivers } u ∧ l ≠ .maximumReached ∧ t = u.giveUp l) ∨
          ∃ r₁ w₁ r₂ w₂ pid, Forks { s with drivers } slot t r₁ w₁ r₂ w₂ pid) := by
  unfold createDriver at h
  split at h
  · exact .inl ⟨‹_›, (Option.some.inj h).symm⟩
  · rename_i drivers slot hslot
    refine .inr ⟨drivers, slot, hslot, ?_⟩
    cases o with
    | firstPipeFails => exact .inl ⟨_, .pipeFailed, .refl, by simp, (Option.some.inj h).symm⟩
    | secondPipeFails r₁ w₁ =>
      obtain ⟨u, hu, rfl⟩ := Option.map_eq_some_iff.mp h
      exact .inl ⟨u, .pipeFailed, .pipe .refl hu, by simp, rfl⟩
    | forkFails r₁ w₁ r₂ w₂ =>
      obtain ⟨u, hu, hrest⟩ := Option.bind_eq_some_iff.mp h
      obtain ⟨v, hv, rfl⟩ := Option.map_eq_some_iff.mp hrest
      exact .inl ⟨v, .forkFailed, .pipe (.pipe .refl hu) hv, by simp, rfl⟩
    | forked r₁ w₁ r₂ w₂ pid =>
      obtain ⟨u, hu, hrest⟩ := Option.bind_eq_some_iff.mp h
      obtain ⟨v, hv, hfork⟩ := Option.bind_eq_some_iff.mp hrest
      obtain ⟨h₁, rfl⟩ := pipe_eq_some hu
      obtain ⟨h₂, rfl⟩ := pipe_eq_some hv
      unfold fork at hfork
      split at hfork
      · rename_i hpid
        exact .inr ⟨r₁, w₁, r₂, w₂, pid, h₁, h₂, hpid.2, (Option.some.inj hfork).symm⟩
      · cases hfork

end World

open World

/-! ### All moves -/

/-- The moves of the system, by what they are about. -/
inductive Move (s : World) : Action → World → Prop
  /-- The dispatcher goes on with its command loop. -/
  | goesOn (a : Action) (pc : Pc) (out : List Line) (other : a ≠ .send)
      (before : s.pc ≠ .sigpipe ∧ ∀ c fd, s.pc ≠ .receiving c fd)
      (after : pc ≠ .sigpipe ∧ ∀ c fd, pc ≠ .receiving c fd) : Move s a { s with pc, out }
  | reap (k : ℕ) (t : World) (reap : s.reap k = some t) : Move s (.reap k) t
  | create (o : Outcome) (t : World) (pc : s.pc = .creating) (create : s.createDriver o = some t) :
      Move s (.create o) t
  | send (c : Call) (pc : s.pc = .sending c) : Move s .send (s.send c)
  | receive (c : Call) (fd : ℕ) (t : World) (pc : s.pc = .receiving c fd)
      (receive : s.receive c fd = some t) : Move s .receive t
  | driver (a : Action) (k : ℕ) (p : Process) (t : World) (other : a ≠ .send)
      (proc : s.procs[k]? = some p) (alive : p.life = .live) (move : DriverMove s k p t)
      (how : t = s.die k p ∨ (∃ now, s.advance k p now = some t) ∨ s.timeOut k p = some t) :
      Move s a t

theorem dispatch_move {command : Command} (hpc : s.pc = .cleanup command) :
    Move s .collected (s.dispatch command) := by
  have hbefore : s.pc ≠ .sigpipe ∧ ∀ c fd, s.pc ≠ .receiving c fd := by simp [hpc]
  cases command with
  | getDrivers =>
    rw [dispatch]
    split <;> exact .goesOn _ _ _ (by simp) hbefore (by simp)
  | _ => exact .goesOn _ _ _ (by simp) hbefore (by simp)

theorem list_move {i : ℕ} (hpc : s.pc = .listing i) : Move s .list (s.list i) := by
  have hbefore : s.pc ≠ .sigpipe ∧ ∀ c fd, s.pc ≠ .receiving c fd := by simp [hpc]
  unfold list
  split
  · exact .goesOn _ _ _ (by simp) hbefore (by simp)
  · split <;> exact .goesOn _ _ _ (by simp) hbefore (by simp)

/-- What a move was about. -/
theorem step_move {a : Action} (hstep : step s a = some t) : Move s a t := by
  cases a with
  | type command | endOfInput =>
    simp only [step] at hstep
    split at hstep
    · rename_i hpc
      cases hstep
      exact .goesOn _ _ _ (by simp) (by simp [hpc]) (by simp)
    · cases hstep
  | reap k => exact .reap k t hstep
  | collected =>
    simp only [step] at hstep
    split at hstep
    · split at hstep
      · cases hstep
        exact dispatch_move ‹_›
      · cases hstep
    · cases hstep
  | create o =>
    simp only [step] at hstep
    split at hstep
    · exact .create o t ‹_› hstep
    · cases hstep
  | list =>
    simp only [step] at hstep
    split at hstep
    · cases hstep
      exact list_move ‹_›
    · cases hstep
  | send =>
    simp only [step] at hstep
    split at hstep
    · cases hstep
      exact .send _ ‹_›
    · cases hstep
  | receive =>
    simp only [step] at hstep
    split at hstep
    · exact .receive _ _ t ‹_› hstep
    · cases hstep
  | die k =>
    obtain ⟨p, hp, rfl⟩ := Option.map_eq_some_iff.mp hstep
    obtain ⟨hk, hlive⟩ := live_eq_some.mp hp
    exact .driver _ k p _ (by simp) hk hlive die_driverMove (.inl rfl)
  | advance k now =>
    obtain ⟨p, hp, hadvance⟩ := Option.bind_eq_some_iff.mp hstep
    obtain ⟨hk, hlive⟩ := live_eq_some.mp hp
    exact .driver _ k p t (by simp) hk hlive (advance_driverMove hadvance)
      (.inr (.inl ⟨now, hadvance⟩))
  | timeOut k =>
    obtain ⟨p, hp, htime⟩ := Option.bind_eq_some_iff.mp hstep
    obtain ⟨hk, hlive⟩ := live_eq_some.mp hp
    exact .driver _ k p t (by simp) hk hlive (timeOut_driverMove htime) (.inr (.inr htime))

end UnixLessons.Taxi

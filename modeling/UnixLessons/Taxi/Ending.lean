import UnixLessons.Taxi.Session
import UnixLessons.Taxi.Survival
import UnixLessons.Transition.Completion

/-!
# Every session ends

Whatever is typed, and however the dispatcher and its drivers take turns, a session is over
after a number of moves that the length of the input bounds. Each move takes something from
the work that is left: a line brings the work of one command, a command that of the messages
it sends, and a message the few moves of the driver that answers it.

Until the dispatcher is gone some move other than a death is possible, so a session that is
over has not got stuck.

## Main result

* `session_ends`
-/

namespace UnixLessons.Taxi

open Text Descriptors Transition World

/-! ### The work that is left -/

/-- Moves of a driver until it waits for a command again. -/
def DriverState.work (m : DriverState) : ℕ :=
  match m.pc with
  | .start _ _ => 4
  | .top => if m.busy then 3 else 1
  | .select none => 0
  | .select (some _) => 2
  | .handle _ => 5
  | .reply _ => 4

/-- The work of a driver, with six moves for each byte that it may have to read. -/
def Process.work (buffer : ℕ → List Char) (p : Process) : ℕ :=
  match p.life with
  | .live => 2 + p.mem.work + 6 * (buffer p.command).length
  | .zombie => 1
  | .reaped => 0

/-- The work of the round of `get_drivers` from this slot on. -/
def roundWork (i : ℕ) : ℕ := 2 + (maxDrivers + 1 - i) * 2000

/-- The work that is left when a call has returned. -/
def Call.work (c : Call) : ℕ :=
  match c.next with
  | none => 1
  | some i => roundWork i

/-- The work of a command. -/
def commandWork : ℕ := roundWork 0 + 1

def Pc.work : Pc → ℕ
  | .prompt => 1
  | .cleanup _ => commandWork
  | .creating => 10
  | .listing i => roundWork i
  | .sending c => c.work + 1540
  | .receiving c _ => c.work + 1
  | .ended | .sigpipe => 0

namespace World

/-- The work of the dispatcher and of all drivers. -/
def work (s : World) : ℕ := s.pc.work + (s.procs.map (Process.work s.buffer)).sum

end World

variable {s t : World} {p p' : Process} {k : ℕ} {a : Action} {c : Call}

theorem process_work_congr {b b' : ℕ → List Char} (h : b' p.command = b p.command) :
    p.work b' = p.work b := by
  rw [Process.work, Process.work, h]

/-- The dispatcher goes on. -/
theorem work_lt_of_pc (hprocs : t.procs = s.procs) (hpc : t.pc.work < s.pc.work)
    (hbuffer : ∀ p ∈ s.procs, t.buffer p.command = s.buffer p.command) : t.work < s.work := by
  have hsum : (s.procs.map (Process.work t.buffer)).sum ≤
      (s.procs.map (Process.work s.buffer)).sum :=
    sum_map_le fun j p hp => (process_work_congr (hbuffer p (List.mem_of_getElem? hp))).le
  rw [World.work, World.work, hprocs]
  omega

/-! ### Drivers -/

/-- A driver goes on. -/
theorem work_lt_of_driver {b : ℕ → List Char} (hk : s.procs[k]? = some p)
    (hlt : p'.work b < p.work s.buffer)
    (hothers : ∀ j q, j ≠ k → s.procs[j]? = some q → b q.command = s.buffer q.command) :
    World.work { s with procs := s.procs.set k p', buffer := b } < s.work := by
  have hsum := sum_map_set_add_le hk (show p'.work b + 1 ≤ p.work s.buffer + 0 by omega)
    fun j q hj hq => (process_work_congr (hothers j q hj hq)).le
  rw [World.work, World.work]
  dsimp only
  omega

theorem work_lt_of_resume {mem : DriverState} (hk : s.procs[k]? = some p) (hlive : p.life = .live)
    (hmem : mem.work < p.mem.work) : (s.resume k p mem).work < s.work := by
  refine work_lt_of_driver hk ?_ fun _ _ _ _ => rfl
  simp only [Process.work, hlive]
  omega

theorem work_die (hk : s.procs[k]? = some p) (hlive : p.life = .live) :
    (s.die k p).work < s.work := by
  refine work_lt_of_driver hk ?_ fun _ _ _ _ => rfl
  simp only [Process.work, hlive]
  omega

theorem enterSelect_work {m : DriverState} (now : Int64) (hpc : m.pc = .top) :
    (m.enterSelect now).work < m.work := by
  rw [DriverState.enterSelect]
  split
  · rename_i hbusy
    dsimp only
    split <;> simp [DriverState.work, hpc, hbusy]
  · rename_i hfree
    simp [DriverState.work, hpc, hfree]

theorem handle_work {m m' : DriverState} {buffer text : CString} {now : Int64}
    (hpc : m.pc = .handle text) (h : m.handle buffer now = some m') : m'.work < m.work := by
  have hm : m.work = 5 := by simp [DriverState.work, hpc]
  have htop : DriverState.work { m with pc := .top } ≤ 3 := by
    rw [DriverState.work]
    dsimp only
    split <;> omega
  rw [DriverState.handle] at h
  split at h
  · cases h
    simp [DriverState.work, DriverState.answer, hpc]
  · split at h
    · obtain ⟨taskTime, -, rfl⟩ := Option.map_eq_some_iff.mp h
      rw [hm]
      split <;> simp [DriverState.work, DriverState.answer]
    · cases h
      omega

theorem readCommand_work (hs : Sound s) (hk : s.procs[k]? = some p) (hlive : p.life = .live)
    (h : s.readCommand k p = some t) : t.work < s.work := by
  obtain ⟨hown, -⟩ := hs.custody.own p (List.mem_of_getElem? hk)
  rw [readCommand, hown] at h
  dsimp only at h
  split at h
  · split at h
    · cases h
    · cases h
      exact work_die hk hlive
  · rename_i hne
    cases h
    refine work_lt_of_driver hk ?_ fun j q hj hq => ?_
    · have hpos := List.length_pos_of_ne_nil hne
      have hread : readMax = 255 := rfl
      simp only [Process.work, hlive, consume, Function.update_self, List.length_drop, hread,
        DriverState.work]
      omega
    · exact Function.update_of_ne (pipes_apart hs.valid hk hq hj.symm).1 _ _

theorem writeReply_work (hs : Sound s) (hk : s.procs[k]? = some p) (hlive : p.life = .live)
    {text : CString} (hpc : p.mem.pc = .reply text) : (s.writeReply k p text).work < s.work := by
  obtain ⟨-, hown⟩ := hs.custody.own p (List.mem_of_getElem? hk)
  have hmem : DriverState.work { p.mem with pc := .top } < p.mem.work := by
    simp only [DriverState.work, hpc]
    split <;> omega
  rw [writeReply, hown]
  dsimp only at hmem ⊢
  split
  · refine work_lt_of_driver hk ?_ fun j q hj hq => ?_
    · have hsame : (s.append p.reply (message text)).buffer p.command = s.buffer p.command :=
        Function.update_of_ne (pipes_own hs.valid hk).1 _ _
      simp only [Process.work, hlive, hsame]
      omega
    · exact Function.update_of_ne (pipes_apart hs.valid hk hq hj.symm).2.1 _ _
  · exact work_die hk hlive

theorem advance_work (hs : Sound s) (hk : s.procs[k]? = some p) (hlive : p.life = .live)
    {now : Int64} (h : s.advance k p now = some t) : t.work < s.work := by
  rw [advance] at h
  split at h
  · rename_i hpc
    cases h
    refine work_lt_of_driver hk ?_ fun _ _ _ _ => rfl
    simp only [Process.work, hlive, DriverState.work, hpc]
    split <;> omega
  · rename_i hpc
    cases h
    exact work_lt_of_resume hk hlive (enterSelect_work now hpc)
  · exact readCommand_work hs hk hlive h
  · rename_i hpc
    obtain ⟨mem, hmem, rfl⟩ := Option.map_eq_some_iff.mp h
    exact work_lt_of_resume hk hlive (handle_work hpc hmem)
  · rename_i hpc
    cases h
    exact writeReply_work hs hk hlive hpc

theorem timeOut_work (hk : s.procs[k]? = some p) (hlive : p.life = .live)
    (h : s.timeOut k p = some t) : t.work < s.work := by
  rw [timeOut] at h
  split at h
  · rename_i hpc _
    split at h
    · cases h
      refine work_lt_of_resume hk hlive ?_
      simp [DriverState.work, DriverState.timedOut, DriverState.becomeFree, hpc]
    · cases h
  · cases h

/-! ### The dispatcher -/

theorem roundWork_succ {i : ℕ} (h : i < maxDrivers) :
    roundWork i = roundWork (i + 1) + 2000 := by
  have hsub : maxDrivers + 1 - i = maxDrivers + 1 - (i + 1) + 1 := by omega
  rw [roundWork, roundWork, hsub]
  omega

theorem work_dispatch {command : Command} (hpc : s.pc = .cleanup command) :
    (s.dispatch command).work < s.work := by
  have hwork : s.pc.work = commandWork := by rw [hpc]; rfl
  cases command with
  | createDriver =>
    exact work_lt_of_pc rfl (hwork.symm ▸ show 10 < commandWork by decide) fun _ _ => rfl
  | sendTask pid timer | getStatus pid =>
    exact work_lt_of_pc rfl (hwork.symm ▸ show 1 + 1540 < commandWork by decide) fun _ _ => rfl
  | getDrivers =>
    rw [dispatch]
    split
    · exact work_lt_of_pc rfl (hwork.symm ▸ show 1 < commandWork by decide) fun _ _ => rfl
    · exact work_lt_of_pc rfl (hwork.symm ▸ Nat.lt_succ_self _) fun _ _ => rfl
  | exit => exact work_lt_of_pc rfl (hwork.symm ▸ show 0 < commandWork by decide) fun _ _ => rfl
  | other => exact work_lt_of_pc rfl (hwork.symm ▸ show 1 < commandWork by decide) fun _ _ => rfl

theorem work_list (hs : Sound s) {i : ℕ} (hpc : s.pc = .listing i) :
    (s.list i).work < s.work := by
  refine work_lt_of_pc ?_ ?_ fun p hp => ?_
  · rw [World.list]
    split
    · rfl
    · split <;> rfl
  · rw [hpc, World.list]
    split
    · simp only [Pc.work, roundWork]
      omega
    · rename_i d hd
      have hlt : i < maxDrivers :=
        (List.getElem?_eq_some_iff.mp hd).1.trans_le hs.valid.length_le
      have hround := roundWork_succ hlt
      split <;> simp only [Pc.work, Call.work] <;> omega
  · rw [World.list]
    split
    · rfl
    · split <;> rfl

theorem work_finish {u : World} {code : ℤ} {response : CString} (hprocs : u.procs = s.procs)
    (hpc : c.work < s.pc.work)
    (hbuffer : ∀ p ∈ s.procs, u.buffer p.command = s.buffer p.command) :
    (u.finish c code response).work < s.work := by
  refine work_lt_of_pc hprocs ?_ hbuffer
  rw [World.finish]
  rw [Call.work] at hpc
  cases hnext : c.next <;> simpa [hnext, Pc.work] using hpc

theorem work_send (hs : Sound s) (hpc : s.pc = .sending c) : (s.send c).work < s.work := by
  have hwork : s.pc.work = c.work + 1540 := by rw [hpc]; rfl
  rcases send_cases hs.custody hs.valid c with
    ⟨-, heq⟩ | ⟨k, p, fd, hk, -, -, -, ⟨hlive, heq⟩ | ⟨-, heq⟩⟩
  · rw [heq]
    exact work_finish rfl (by omega) fun _ _ => rfl
  · rw [heq]
    have hmessage : (message c.request.text).length ≤ 255 := by
      have hlength := (request_sendable c.request).length_lt
      have hread : readMax = 255 := rfl
      rw [message, List.length_append, List.length_singleton]
      omega
    have hset : s.procs.set k p = s.procs := by
      obtain ⟨hlt, rfl⟩ := List.getElem?_eq_some_iff.mp hk
      exact List.set_getElem_self hlt
    have hsum := @sum_map_set_add_le _ s.procs
      (Process.work (s.append p.command (message c.request.text)).buffer)
      (Process.work s.buffer) k 0 1530 p p hk (by
        simp only [Process.work, hlive, append, Function.update_self, List.length_append]
        omega)
      fun j q hj hq => (process_work_congr
        (Function.update_of_ne (pipes_apart hs.valid hk hq hj.symm).1 _ _)).le
    rw [hset] at hsum
    change c.work + 1 + (s.procs.map (Process.work
      (s.append p.command (message c.request.text)).buffer)).sum < s.work
    rw [World.work, hwork]
    omega
  · rw [heq]
    refine work_lt_of_pc rfl ?_ fun _ _ => rfl
    rw [hwork]
    exact Nat.succ_pos _

theorem work_receive (hs : Sound s) {fd : ℕ} (hpc : s.pc = .receiving c fd)
    (h : s.receive c fd = some t) : t.work < s.work := by
  have hwork : c.work < s.pc.work := by rw [hpc]; exact Nat.lt_succ_self _
  obtain ⟨k, p, hk, -, -, hfd⟩ := hs.agreement.receiving c fd hpc
  rcases receive_cases hs.custody c hk hfd with ⟨-, -, heq⟩ | ⟨-, -, heq⟩ | ⟨-, heq⟩
  · rw [heq] at h
    cases h
  · rw [heq] at h
    cases h
    exact work_finish rfl hwork fun _ _ => rfl
  · rw [heq] at h
    cases h
    refine work_finish rfl hwork fun q hq => Function.update_of_ne ?_ _ _
    exact hs.valid.pipes_ne q.child (List.mem_map_of_mem hq) p.child
      (List.mem_map_of_mem (List.mem_of_getElem? hk))

theorem work_reap (hs : Sound s) (h : s.reap k = some t) : t.work < s.work := by
  obtain ⟨p, i, d, hcollects⟩ := reap_collects hs.valid h
  have hlt := @work_lt_of_driver s p { p with life := .reaped } k s.buffer hcollects.proc
    (by simp [Process.work, hcollects.zombie]) fun _ _ _ _ => rfl
  rw [hcollects.eq]
  exact hlt

theorem work_create (hs : Sound s) (hpc : s.pc = .creating) {o : Outcome}
    (h : s.createDriver o = some t) : t.work < s.work := by
  have hwork : s.pc.work = 10 := by rw [hpc]; rfl
  have hbelow : ∀ p ∈ s.procs, p.command < s.pipes := fun p hp =>
    (hs.valid.pipes_lt p.child (List.mem_map_of_mem hp)).1
  rcases createDriver_cases h with
    ⟨-, rfl⟩ | ⟨drivers, slot, -, ⟨u, l, hopens, -, rfl⟩ | ⟨r₁, w₁, r₂, w₂, pid, hforks⟩⟩
  · exact work_lt_of_pc rfl (hwork.symm ▸ show 1 < 10 by decide) fun _ _ => rfl
  · obtain ⟨-, -, hprocs, -, -, -, hbuffer⟩ := hopens.frame
    exact work_lt_of_pc hprocs (hwork.symm ▸ show 1 < 10 by decide)
      fun p hp => hbuffer _ (hbelow p hp)
  · -- The pipes of the new driver are empty, and none of the others has them.
    have hsame : ∀ p ∈ s.procs, t.buffer p.command = s.buffer p.command := fun p hp => by
      have hlt := hbelow p hp
      rw [hforks.eq]
      dsimp only
      rw [Function.update_of_ne (by omega), Function.update_of_ne (by omega)]
    have hold : (s.procs.map (Process.work t.buffer)).sum ≤
        (s.procs.map (Process.work s.buffer)).sum :=
      sum_map_le fun j p hp => (process_work_congr (hsame p (List.mem_of_getElem? hp))).le
    have hempty : t.buffer s.pipes = [] := by
      rw [hforks.eq]
      dsimp only
      rw [Function.update_of_ne (by omega), Function.update_self]
    have hprocs : t.procs = s.procs ++
        [⟨pid, .live, openTwo s.fds r₁ w₁ r₂ w₂ s.pipes, .init r₁ w₂ w₁ r₂, s.pipes,
          s.pipes + 1⟩] := by rw [hforks.eq]
    have hprompt : t.pc.work = 1 := by rw [hforks.eq]; rfl
    rw [World.work, World.work, hwork, hprompt, hprocs, List.map_append, List.sum_append]
    simp only [List.map_cons, List.map_nil, List.sum_cons, List.sum_nil, Process.work, hempty,
      DriverState.init, DriverState.work, List.length_nil]
    omega

/-- Apart from a command that is typed, every move takes something from the work. -/
theorem step_work (hs : Sound s) (hother : ∀ c, a ≠ .type c) (hstep : step s a = some t) :
    t.work < s.work := by
  cases a with
  | type c => exact absurd rfl (hother c)
  | endOfInput =>
    simp only [step] at hstep
    split at hstep
    · rename_i hpc
      cases hstep
      exact work_lt_of_pc rfl (hpc.symm ▸ show 0 < 1 by decide) fun _ _ => rfl
    · cases hstep
  | reap k => exact work_reap hs hstep
  | collected =>
    simp only [step] at hstep
    split at hstep
    · rename_i hpc
      split at hstep
      · cases hstep
        exact work_dispatch hpc
      · cases hstep
    · cases hstep
  | create o =>
    simp only [step] at hstep
    split at hstep
    · rename_i hpc
      exact work_create hs hpc hstep
    · cases hstep
  | list =>
    simp only [step] at hstep
    split at hstep
    · rename_i hpc
      cases hstep
      exact work_list hs hpc
    · cases hstep
  | send =>
    simp only [step] at hstep
    split at hstep
    · rename_i hpc
      cases hstep
      exact work_send hs hpc
    · cases hstep
  | receive =>
    simp only [step] at hstep
    split at hstep
    · rename_i hpc
      exact work_receive hs hpc hstep
    · cases hstep
  | die k =>
    obtain ⟨p, hp, rfl⟩ := Option.map_eq_some_iff.mp hstep
    obtain ⟨hk, hlive⟩ := live_eq_some.mp hp
    exact work_die hk hlive
  | advance k now =>
    obtain ⟨p, hp, hadvance⟩ := Option.bind_eq_some_iff.mp hstep
    obtain ⟨hk, hlive⟩ := live_eq_some.mp hp
    exact advance_work hs hk hlive hadvance
  | timeOut k =>
    obtain ⟨p, hp, htimeOut⟩ := Option.bind_eq_some_iff.mp hstep
    obtain ⟨hk, hlive⟩ := live_eq_some.mp hp
    exact timeOut_work hk hlive htimeOut

/-! ### Nothing gets stuck -/

/-- A call that has written its command can go on: its answer can be read, or the driver can
move. -/
theorem exists_step_receiving (hs : Sound s) {fd : ℕ} (hpc : s.pc = .receiving c fd) :
    (∃ t, step s .receive = some t) ∨ ∃ k t, step s (.advance k 0) = some t := by
  obtain ⟨k, n, -, hreturns⟩ := answer_follows hs hpc
  obtain ⟨t, hrun, ht⟩ := hreturns (List.replicate n 0) List.length_replicate
  cases n with
  | zero =>
    obtain rfl := Option.some.inj hrun
    exact .inl (Option.isSome_iff_exists.mp ht)
  | succ n =>
    obtain ⟨u, hu, -⟩ := run_cons_eq_some.mp hrun
    exact .inr ⟨k, u, hu⟩

/-- A dead driver can be waited for. -/
theorem exists_reap {command : Command} (hpc : s.pc = .cleanup command) (h : ¬ s.Collected) :
    ∃ k t, step s (.reap k) = some t := by
  have hzombie : ∃ p ∈ s.procs, p.life = .zombie := by
    simpa [Collected] using h
  obtain ⟨p, hp, hlife⟩ := hzombie
  obtain ⟨k, hk⟩ := List.mem_iff_getElem?.mp hp
  refine ⟨k, ?_⟩
  simp only [step, World.reap, hpc, hk, if_pos hlife]
  split
  · exact ⟨_, rfl⟩
  · rename_i i hi
    obtain ⟨hlt, -⟩ := List.findIdx?_eq_some_iff_getElem.mp hi
    have hslot : (s.setProc k { p with life := .reaped }).drivers[i]? = some s.drivers[i] :=
      List.getElem?_eq_getElem hlt
    rw [hslot]
    exact ⟨_, rfl⟩

/-- Unless it waits for its input, the dispatcher or the driver it waits for can go on. -/
theorem exists_step (hs : Sound s) (hprompt : s.pc ≠ .prompt) (hrunning : s.Running) :
    ∃ a t, (∀ c, a ≠ .type c) ∧ a ≠ .endOfInput ∧ (∀ k, a ≠ .die k) ∧ step s a = some t := by
  cases hpc : s.pc with
  | prompt => exact absurd hpc hprompt
  | ended => exact absurd hpc hrunning.1
  | sigpipe => exact absurd hpc hrunning.2
  | cleanup command =>
    by_cases hcollected : s.Collected
    · exact ⟨.collected, s.dispatch command, by simp, by simp, by simp,
        by simp only [step, hpc, if_pos hcollected]⟩
    · obtain ⟨k, t, ht⟩ := exists_reap hpc hcollected
      exact ⟨.reap k, t, by simp, by simp, by simp, ht⟩
  | creating =>
    refine ⟨.create .firstPipeFails, ?_⟩
    simp only [step, if_pos hpc, createDriver]
    split
    · exact ⟨_, by simp, by simp, by simp, rfl⟩
    · exact ⟨_, by simp, by simp, by simp, rfl⟩
  | listing i => exact ⟨.list, s.list i, by simp, by simp, by simp, by simp only [step, hpc]⟩
  | sending c => exact ⟨.send, s.send c, by simp, by simp, by simp, by simp only [step, hpc]⟩
  | receiving c fd =>
    rcases exists_step_receiving hs hpc with ⟨t, ht⟩ | ⟨k, t, ht⟩
    · exact ⟨.receive, t, by simp, by simp, by simp, ht⟩
    · exact ⟨.advance k 0, t, by simp, by simp, by simp, ht⟩

/-- Only a typed command leads to `cleanup_zombies`, and only `exit` from there to the end. -/
theorem pc_of_step (htype : ∀ c, a ≠ .type c) (hend : a ≠ .endOfInput)
    (hstep : step s a = some t) :
    (∀ c, t.pc = .cleanup c → s.pc = .cleanup c) ∧
      (t.pc = .ended → s.pc = .ended ∨ s.pc = .cleanup .exit) := by
  have hfinish : ∀ (u : World) (c : Call) code response,
      (∀ d, (u.finish c code response).pc ≠ .cleanup d) ∧ (u.finish c code response).pc ≠ .ended :=
    fun u c code response => by
      rw [World.finish]
      cases c.next <;> simp
  cases a with
  | type c => exact absurd rfl (htype c)
  | endOfInput => exact absurd rfl hend
  | reap k =>
    simp only [step, World.reap] at hstep
    split at hstep
    · split at hstep
      · split at hstep
        · cases hstep
          exact ⟨fun _ => id, .inl⟩
        · obtain ⟨d, -, rfl⟩ := Option.map_eq_some_iff.mp hstep
          exact ⟨fun _ => id, .inl⟩
      · cases hstep
    · cases hstep
  | collected =>
    simp only [step] at hstep
    split at hstep
    · rename_i command hpc
      split at hstep
      · cases hstep
        cases command <;> simp only [dispatch] <;> try split
        all_goals simp [hpc]
      · cases hstep
    · cases hstep
  | create o =>
    simp only [step] at hstep
    split at hstep
    · have hprompt := createDriver_pc hstep
      simp [hprompt]
    · cases hstep
  | list =>
    simp only [step] at hstep
    split at hstep
    · cases hstep
      rw [World.list]
      split
      · simp
      · split <;> simp
    · cases hstep
  | send =>
    simp only [step] at hstep
    split at hstep
    · cases hstep
      rw [World.send]
      split
      · simp [hfinish]
      · split
        · split <;> simp
        · simp
    · cases hstep
  | receive =>
    simp only [step] at hstep
    split at hstep
    · rw [World.receive] at hstep
      split at hstep
      · split at hstep
        · split at hstep
          · cases hstep
          · cases hstep
            simp [hfinish]
        · cases hstep
          simp [hfinish]
      · cases hstep
        simp [hfinish]
    · cases hstep
  | die k =>
    obtain ⟨p, -, rfl⟩ := Option.map_eq_some_iff.mp hstep
    exact ⟨fun _ => id, .inl⟩
  | advance k now =>
    obtain ⟨p, -, hadvance⟩ := Option.bind_eq_some_iff.mp hstep
    rw [driverMove_pc (advance_driverMove hadvance)]
    exact ⟨fun _ => id, .inl⟩
  | timeOut k =>
    obtain ⟨p, -, htimeOut⟩ := Option.bind_eq_some_iff.mp hstep
    rw [driverMove_pc (timeOut_driverMove htimeOut)]
    exact ⟨fun _ => id, .inl⟩

/-! ### Sessions -/

variable {v w : Session}

namespace Session

/-- The work of what has begun and of what is still to be read. -/
def work (s : Session) : ℕ := s.world.work + commandWork * s.stdin.length

theorem step_work (hs : Sound v.world) (hstep : v.step a = some w) : w.work < v.work := by
  by_cases htype : ∃ c, a = .type c
  · obtain ⟨c, rfl⟩ := htype
    obtain ⟨world, hread, hworld, hw⟩ := step_type_eq_some hstep
    have hshorter : w.stdin.length < v.stdin.length := by
      obtain ⟨⟨line, rest⟩, hline, hpair⟩ := Option.map_eq_some_iff.mp hread
      obtain ⟨-, rfl⟩ := Prod.mk.inj hpair
      exact length_rest_lt (by decide) hline
    have hmul : commandWork * w.stdin.length + commandWork ≤ commandWork * v.stdin.length := by
      rw [← Nat.mul_succ]
      exact Nat.mul_le_mul_left _ hshorter
    have hadd : w.world.work + 1 = v.world.work + commandWork := by
      simp only [Taxi.step] at hworld
      split at hworld
      · rename_i hpc
        cases hworld
        rw [hw, World.work, World.work, hpc]
        simp only [Pc.work]
        omega
      · cases hworld
    rw [Session.work, Session.work]
    omega
  · rw [not_exists] at htype
    obtain ⟨world, hworld, rfl⟩ := step_other_eq_some htype hstep
    exact Nat.add_lt_add_right (Taxi.step_work hs htype hworld) _

/-- No move is possible, unless a driver dies. -/
def Idle (s : Session) : Prop := ∀ a, (∀ k, a ≠ .die k) → s.step a = none

theorem ended_of_idle (hs : Sound v.world) (h : v.Idle) : ¬ v.world.Running := by
  intro hrunning
  by_cases hprompt : v.world.pc = .prompt
  · cases hread : v.read with
    | none =>
      have hnone : v.stdin = [] := fgets_eq_none.mp (Option.map_eq_none_iff.mp hread)
      have hstep := h .endOfInput (by simp)
      simp only [Session.step, if_pos hnone, Taxi.step, if_pos hprompt] at hstep
      cases hstep
    | some next =>
      have hstep := h (.type next.1) (by simp)
      simp only [Session.step, hread, if_pos, Taxi.step, if_pos hprompt] at hstep
      cases hstep
  · obtain ⟨a, t, htype, hend, hdie, hstep⟩ := exists_step hs hprompt hrunning
    have hnone := h a hdie
    have hmap : v.step a = (Taxi.step v.world a).map fun world => { v with world } := by
      cases a with
      | type c => exact absurd rfl (htype c)
      | endOfInput => exact absurd rfl hend
      | _ => rfl
    rw [hmap, hstep] at hnone
    cases hnone

/-- The loop is left behind the last line or for `exit`. -/
structure Ends (s : Session) : Prop where
  cleanup : ∀ c, s.world.pc = .cleanup c → s.typed.getLast? = some c
  ended : s.world.pc = .ended → s.stdin = [] ∨ s.typed.getLast? = some .exit

theorem ends_preserved : Preserved Session.step Ends := by
  intro v a w h hstep
  by_cases htype : ∃ c, a = .type c
  · obtain ⟨c, rfl⟩ := htype
    obtain ⟨world, -, hworld, hw⟩ := step_type_eq_some hstep
    have hpc : world.pc = .cleanup c := by
      simp only [Taxi.step] at hworld
      split at hworld
      · cases hworld
        rfl
      · cases hworld
    rw [hw]
    constructor
    · intro d hd
      obtain rfl : c = d := Pc.cleanup.inj (hpc.symm.trans hd)
      exact List.getLast?_concat
    · intro hend
      have hend : world.pc = .ended := hend
      rw [hpc] at hend
      cases hend
  · rw [not_exists] at htype
    by_cases hend : a = .endOfInput
    · subst hend
      simp only [Session.step] at hstep
      split at hstep
      · rename_i hstdin
        obtain ⟨world, hworld, rfl⟩ := Option.map_eq_some_iff.mp hstep
        simp only [Taxi.step] at hworld
        split at hworld
        · cases hworld
          exact ⟨by simp, fun _ => .inl hstdin⟩
        · cases hworld
      · cases hstep
    · obtain ⟨world, hworld, rfl⟩ := step_other_eq_some htype hstep
      obtain ⟨hcleanup, hended⟩ := pc_of_step htype hend hworld
      refine ⟨fun c hc => h.cleanup c (hcleanup c hc), fun hpc => ?_⟩
      rcases hended hpc with hbefore | hbefore
      · exact h.ended hbefore
      · exact .inr (h.cleanup _ hbefore)

end Session

/-- A session on any input has no more moves than this. When no move is left but deaths, the
dispatcher has ended behind the last line or for `exit`, unless a signal has killed it. -/
theorem session_ends {stdin : Stdin} {acts : List Action}
    (hrun : run Session.step (.init stdin) acts = some v) :
    acts.length ≤ 202003 * stdin.length + 1 ∧
      (v.Idle → v.world.pc = .sigpipe ∨
        v.world.pc = .ended ∧ (v.stdin = [] ∨ v.typed.getLast? = some .exit)) := by
  have hsound : Preserved Session.step fun s : Session => Sound s.world :=
    fun _ _ _ hs hstep => hs.step (step_world hstep)
  have hinit : Sound (Session.init stdin).world := Sound.init
  constructor
  · have hle := hsound.size_add_length_le (fun _ _ _ hs hstep => Session.step_work hs hstep)
      hinit hrun
    have hwork : (Session.init stdin).work = 1 + 202003 * stdin.length := rfl
    omega
  · intro hidle
    have hprompt : (Session.init stdin).world.pc = .prompt := rfl
    have hstart : (Session.init stdin).Ends := by constructor <;> simp [hprompt]
    have hends := Session.ends_preserved.run hstart hrun
    have hgone := Session.ended_of_idle (hsound.run hinit hrun) hidle
    rw [Running, not_and_or, not_not, not_not] at hgone
    exact hgone.symm.imp id fun hpc => ⟨hpc, hends.ended hpc⟩

/-- When the dispatcher and all drivers have ended, nothing moves. -/
theorem Session.idle_of_ended (hpc : v.world.pc = .ended) (hdead : ∀ k, v.world.live k = none) :
    v.Idle := by
  intro a hdie
  cases a with
  | type c => cases hread : v.read <;> simp [Session.step, hread, Taxi.step, hpc]
  | die k => exact absurd rfl (hdie k)
  | reap k => simp [Session.step, Taxi.step, World.reap, hpc]
  | endOfInput | collected | create o | list | send | receive =>
    simp [Session.step, Taxi.step, hpc]
  | advance k now | timeOut k => simp [Session.step, Taxi.step, hdead]

/-- A driver is created and takes a task. The dispatcher ends, and `SIGTERM` ends the driver. -/
def exitMoves : List Action :=
  [.type .createDriver, .collected, .create (.forked 3 4 5 6 10), .type (.sendTask 10 3),
    .collected, .send, .advance 0 0, .advance 0 0, .advance 0 0, .advance 0 0, .advance 0 0,
    .receive, .type .exit, .collected, .die 0]

theorem session_ends_oneDriver :
    ∃ v, run Session.step (.init (linesOf [.createDriver, .sendTask 10 3, .exit])) exitMoves =
        some v ∧ v.Idle ∧ v.world.out = [.created 10 0, .taskSent 10 3, .exiting] ∧
      v.world.pc = .ended ∧ (v.stdin = [] ∨ v.typed.getLast? = some .exit) := by
  have hend : (run Session.step (.init (linesOf [.createDriver, .sendTask 10 3, .exit]))
      exitMoves).map (fun v => (v.world.pc, v.world.procs.map Process.life, v.world.out)) =
        some (.ended, [.zombie], [.created 10 0, .taskSent 10 3, .exiting]) := by decide
  obtain ⟨v, hrun, htriple⟩ := Option.map_eq_some_iff.mp hend
  obtain ⟨hpc, hlife, hout⟩ :
      v.world.pc = .ended ∧ v.world.procs.map Process.life = [.zombie] ∧
        v.world.out = [.created 10 0, .taskSent 10 3, .exiting] := by simpa using htriple
  -- the only process there ever was is a zombie
  have hdead : ∀ k, v.world.live k = none := by
    intro k
    rw [Option.eq_none_iff_forall_ne_some]
    intro p hp
    obtain ⟨hpk, halive⟩ := World.live_eq_some.mp hp
    have hmem : p.life ∈ v.world.procs.map Process.life :=
      List.mem_map_of_mem (List.mem_of_getElem? hpk)
    rw [hlife, halive] at hmem
    cases List.mem_singleton.mp hmem
  have hidle := Session.idle_of_ended hpc hdead
  exact ⟨v, hrun, hidle, hout, ((session_ends hrun).2 hidle).resolve_left (by simp [hpc])⟩

end UnixLessons.Taxi

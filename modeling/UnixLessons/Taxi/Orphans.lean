import UnixLessons.Taxi.Holders

/-!
# Drivers without a dispatcher

A driver ends when its command pipe has no writer left. A forked driver inherits
the dispatcher's ends of all pipes to older drivers and never closes them, so
drivers keep each other's pipes open. They do so in one direction only: whoever
holds the end a driver gets its commands from was forked after it. When the
dispatcher is gone, the youngest driver that is left reads the end of its file.

The dispatcher may end at any moment: `stepOrKill` adds this to the moves of the
system.

## Main results

* `Inherited`: the direction of inheritance, kept by every move
* `orphan_reads_eof`: some driver always reads the end of its file
-/

namespace UnixLessons.Taxi

open Text Descriptors Transition World

variable {s t : World} {p p' q : Process} {k l : ℕ}

/-- A move of the system, or the end of the dispatcher from outside. -/
def stepOrKill (s : World) : Option Action → Option World
  | some a => step s a
  | none => some { s with pc := .ended }

/-- The driver is in `driver_main`: it has closed the ends that are not its own. -/
def Process.entered (p : Process) : Bool :=
  match p.mem.pc with
  | .start _ _ => false
  | _ => true

theorem Process.entered_eq_false : p.entered = false ↔ ∃ w r, p.mem.pc = .start w r := by
  unfold Process.entered
  split <;> simp_all

/-! ### The direction of inheritance -/

/-- The end a driver gets its commands from is open in younger drivers, and in the
driver itself only until it has closed it, where it is at one descriptor. -/
structure Inherited (s : World) : Prop where
  later : ∀ (k l : ℕ) (p q : Process), s.procs[k]? = some p → s.procs[l]? = some q →
    Holds q.fds ⟨p.command, .write⟩ → k < l ∨ k = l ∧ q.entered = false
  own : ∀ p ∈ s.procs, ∀ w r, p.mem.pc = .start w r →
    ∀ fd, p.fds.lookup fd = some ⟨p.command, .write⟩ → fd = w

namespace Inherited

theorem init : Inherited World.init := by
  constructor <;> simp [World.init]

theorem same (h : Inherited s) (hprocs : t.procs = s.procs) : Inherited t where
  later := hprocs ▸ h.later
  own := hprocs ▸ h.own

/-- One driver changes, and if it enters `driver_main` it has given up its own end. -/
theorem shrink (h : Inherited s) (hk : s.procs[k]? = some p) (hshrinks : p.Shrinks p')
    (hentered : p.entered = false → p'.entered = false ∨ ¬ Holds p'.fds ⟨p.command, .write⟩) :
    Inherited (s.setProc k p') := by
  constructor
  · intro l m q u hl hm hholds
    rcases Registry.Valid.getElem?_set_some hl with ⟨rfl, rfl⟩ | ⟨hne, hl'⟩ <;>
      rcases Registry.Valid.getElem?_set_some hm with ⟨rfl, rfl⟩ | ⟨hne', hm'⟩
    · -- The driver holds its own end: it did so before.
      rw [hshrinks.command] at hholds
      rcases h.later _ _ p p hk hk (hholds.imp fun fd => hshrinks.sub fd _) with hlt | ⟨-, hstart⟩
      · exact absurd hlt (Nat.lt_irrefl _)
      · exact .inr ⟨rfl, (hentered hstart).resolve_right (not_not_intro hholds)⟩
    · rw [hshrinks.command] at hholds
      exact (h.later _ m p u hk hm' hholds).imp_right fun ⟨heq, _⟩ => absurd heq hne'
    · rcases h.later l _ q p hl' hk (hholds.imp fun fd => hshrinks.sub fd _) with hlt | ⟨heq, -⟩
      · exact .inl hlt
      · exact absurd heq.symm hne
    · exact h.later l m q u hl' hm' hholds
  · intro q hq w r hpc fd hfd
    obtain ⟨l, hl⟩ := List.mem_iff_getElem?.mp hq
    rcases Registry.Valid.getElem?_set_some hl with ⟨rfl, rfl⟩ | ⟨-, hl⟩
    · obtain ⟨hpc₀, hfds⟩ := hshrinks.start w r hpc
      rw [hfds, hshrinks.command] at hfd
      exact h.own p (List.mem_of_getElem? hk) w r hpc₀ fd hfd
    · exact h.own q (List.mem_of_getElem? hl) w r hpc fd hfd

/-- A driver is forked: its own pipe is new, and it is the youngest holder of every
other. -/
theorem forked (h : Inherited s) (hcustody : Custody s) (hvalid : s.registry.Valid)
    {slot r₁ w₁ r₂ w₂ : ℕ} {pid : Int32} (hforks : Forks s slot t r₁ w₁ r₂ w₂ pid) :
    Inherited t := by
  have h₁ := hforks.first
  have h₂ := hforks.second
  have hprocs : t.procs = s.procs ++ [⟨pid, .live, openTwo s.fds r₁ w₁ r₂ w₂ s.pipes,
      .init r₁ w₂ w₁ r₂, s.pipes, s.pipes + 1⟩] := by rw [hforks.eq]
  constructor
  · intro k l p q hk hl hholds
    rw [hprocs] at hk hl
    rcases Registry.Valid.getElem?_concat hk with hk | ⟨rfl, rfl⟩ <;>
      rcases Registry.Valid.getElem?_concat hl with hl | ⟨rfl, rfl⟩
    · exact h.later k l p q hk hl hholds
    · exact .inl (List.getElem?_eq_some_iff.mp hk).1
    · -- An older driver cannot hold the end of a pipe that did not exist.
      have hbelow := hcustody.below q (List.mem_of_getElem? hl)
      exact absurd hholds (hbelow.not_holds le_rfl)
    · exact .inr ⟨rfl, rfl⟩
  · intro p hp w r hpc fd hfd
    rw [hprocs, List.mem_append, List.mem_singleton] at hp
    rcases hp with hp | rfl
    · exact h.own p hp w r hpc fd hfd
    · cases hpc
      -- The descriptors that were open before refer to older pipes.
      have hbelow : Below s.fds s.pipes := hvalid.below
      have hold : s.fds.lookup fd ≠ some ⟨s.pipes, .write⟩ := fun hlookup =>
        Nat.lt_irrefl _ (hbelow fd _ hlookup)
      rw [lookup_openTwo h₁ h₂] at hfd
      split_ifs at hfd with _ _ _ hw
      · simp at hfd
      · simp at hfd
      · simp at hfd
      · exact hw
      · exact absurd hfd hold

end Inherited

/-! ### Every move -/

/-- The state is as the invariants say. -/
structure Kept (s : World) : Prop where
  valid : s.registry.Valid
  custody : Custody s
  inherited : Inherited s

/-- A driver that enters `driver_main` gives up its own end. -/
theorem advance_start {now : Int64} {w r : ℕ} (h : Kept s) (hk : s.procs[k]? = some p)
    (hpc : p.mem.pc = .start w r) (hadvance : s.advance k p now = some t) :
    t = s.setProc k { p with fds := (p.fds.erase w).erase r, mem := { p.mem with pc := .top } } ∧
      ¬ Holds ((p.fds.erase w).erase r) ⟨p.command, .write⟩ := by
  constructor
  · simp only [advance, hpc, Option.some.injEq] at hadvance
    exact hadvance.symm
  · rintro ⟨fd, hfd⟩
    have hlookup := lookup_of_erase hfd
    have hown := h.inherited.own p (List.mem_of_getElem? hk) w r hpc fd (lookup_of_erase hlookup)
    rw [hown, AList.lookup_erase] at hlookup
    cases hlookup

theorem driver_inherited (h : Kept s) (hk : s.procs[k]? = some p) (hmove : DriverMove s k p t)
    (how : t = s.die k p ∨ (∃ now, s.advance k p now = some t) ∨ s.timeOut k p = some t) :
    Inherited t := by
  cases hentered : p.entered with
  | true =>
    obtain ⟨p', hnext, heq⟩ := hmove
    have hshrinks : p.Shrinks p' := by
      cases hnext with
      | goesOn mem follows => exact .mem follows
      | ends => exact .life p .zombie
      | closes w r pc => exact h.custody.closeEnds h.valid hk pc
    rw [heq]
    exact (h.inherited.shrink hk hshrinks (by simp [hentered])).same rfl
  | false =>
    -- Before `driver_main` a driver dies or closes the two ends, nothing else.
    obtain ⟨w, r, hpc⟩ := Process.entered_eq_false.mp hentered
    rcases how with rfl | ⟨now, hadvance⟩ | htime
    · exact h.inherited.shrink hk (.life p .zombie) fun hstart => .inl hstart
    · obtain ⟨rfl, hnot⟩ := advance_start h hk hpc hadvance
      exact h.inherited.shrink hk (h.custody.closeEnds h.valid hk hpc) fun _ => .inr hnot
    · simp [timeOut, hpc] at htime

theorem createDriver_inherited {o : Outcome} (h : Kept s) (hcreate : s.createDriver o = some t) :
    Inherited t := by
  rcases createDriver_cases hcreate with ⟨-, rfl⟩ | ⟨drivers, slot, hslot, hrest⟩
  · exact h.inherited.same rfl
  · have hcustody : Custody { s with drivers } := h.custody.same rfl rfl fun _ _ => id
    have hinherited : Inherited { s with drivers } := h.inherited.same rfl
    -- without a fork the drivers are the same, with one there is a youngest
    rcases hrest with ⟨u, l, hopens, -, rfl⟩ | ⟨r₁, w₁, r₂, w₂, pid, hforks⟩
    · exact hinherited.same hopens.frame.2.2.1
    · exact hinherited.forked hcustody (freeSlot_valid h.valid hslot).1 hforks

theorem send_procs (c : Call) : (s.send c).procs = s.procs := by
  unfold send
  split
  · rfl
  · split
    · split <;> rfl
    · rfl

theorem receive_procs {c : Call} {fd : ℕ} (hreceive : s.receive c fd = some t) :
    t.procs = s.procs := by
  unfold receive at hreceive
  split at hreceive
  · split at hreceive
    · split at hreceive
      · cases hreceive
      · cases hreceive
        rfl
    · cases hreceive
      rfl
  · cases hreceive
    rfl

theorem step_inherited {a : Action} (h : Kept s) (hstep : step s a = some t) : Inherited t := by
  cases step_move hstep with
  | goesOn => exact h.inherited.same rfl
  | reap k _ hreap =>
    obtain ⟨p, i, d, hc⟩ := reap_collects h.valid hreap
    have h' : Inherited (s.setProc k { p with life := .reaped }) :=
      h.inherited.shrink hc.proc (.life p .reaped) fun hstart => .inl hstart
    rw [hc.eq]
    exact h'.same rfl
  | create o _ _ hcreate => exact createDriver_inherited h hcreate
  | send c => exact h.inherited.same (send_procs c)
  | receive c fd _ _ hreceive => exact h.inherited.same (receive_procs hreceive)
  | driver _ k p _ _ hk _ hmove how => exact driver_inherited h hk hmove how

theorem kept_preserved : Preserved stepOrKill Kept := by
  intro s a t h hstep
  cases a with
  | some a =>
    exact ⟨step_valid h.valid hstep, step_custody h.custody h.valid hstep, step_inherited h hstep⟩
  | none =>
    cases hstep
    exact ⟨h.valid, h.custody.same rfl rfl fun _ _ => id, h.inherited.same rfl⟩

theorem kept_init : Kept World.init :=
  ⟨Registry.Valid.init, Custody.init, Inherited.init⟩

/-! ### The main result -/

/-- Of the drivers that are alive, one is the youngest. -/
theorem exists_youngest (hlive : ∃ p ∈ s.procs, p.life = .live) :
    ∃ k p, s.live k = some p ∧ ∀ l q, s.live l = some q → l ≤ k := by
  obtain ⟨p, hp, hlife⟩ := hlive
  obtain ⟨k, hk⟩ := List.mem_iff_getElem?.mp hp
  have hsome : (s.live k).isSome := by
    rw [live_eq_some.mpr ⟨hk, hlife⟩]
    rfl
  have hbound : ∀ l q, s.live l = some q → l ≤ s.procs.length := fun l q hl =>
    (List.getElem?_eq_some_iff.mp (live_eq_some.mp hl).1).1.le
  obtain ⟨q, hq⟩ := Option.isSome_iff_exists.mp hsome
  -- the youngest driver is the last in the list that is alive
  have hgreatest := Nat.findGreatest_spec (P := fun k => (s.live k).isSome) (hbound k q hq) hsome
  obtain ⟨q', hq'⟩ := Option.isSome_iff_exists.mp hgreatest
  refine ⟨_, q', hq', fun l u hl => ?_⟩
  apply Nat.le_findGreatest (hbound l u hl)
  rw [hl]
  rfl

/-- When the dispatcher is gone and all drivers that are alive are in
`driver_main`, a driver holds the write ends of the pipes to older drivers only,
and some driver reads the end of its file as soon as it has read what is left in
its command pipe: nobody can write to it any more. -/
theorem orphan_reads_eof (hs : Reachable stepOrKill (· = World.init) s) (hgone : ¬ s.Running)
    (hentered : ∀ p ∈ s.procs, p.life = .live → p.entered = true) :
    (∀ k l p q, s.procs[k]? = some p → s.live l = some q →
      Holds q.fds ⟨p.command, .write⟩ → k < l) ∧
    ((∃ p ∈ s.procs, p.life = .live) → ∃ k p, s.live k = some p ∧
      ¬ s.Held ⟨p.command, .write⟩ ∧
      ∀ timeout, p.mem.pc = .select timeout → s.buffer p.command = [] →
        ∀ now, step s (.advance k now) = some (s.die k p)) := by
  have hkept := kept_preserved.reachable (by rintro _ rfl; exact kept_init) hs
  have hlater : ∀ k l p q, s.procs[k]? = some p → s.live l = some q →
      Holds q.fds ⟨p.command, .write⟩ → k < l := by
    intro k l p q hk hl hholds
    obtain ⟨hl, hlife⟩ := live_eq_some.mp hl
    rcases hkept.inherited.later k l p q hk hl hholds with hlt | ⟨-, hstart⟩
    · exact hlt
    · rw [hentered q (List.mem_of_getElem? hl) hlife] at hstart
      cases hstart
  refine ⟨hlater, fun hlive => ?_⟩
  obtain ⟨k, p, hk, hyoungest⟩ := exists_youngest hlive
  have hp := live_eq_some.mp hk
  -- a holder of the end would be younger than the youngest, or the dispatcher
  have hnot : ¬ s.Held ⟨p.command, .write⟩ := by
    rintro (⟨hrunning, -⟩ | ⟨q, hq, hlife, hholds⟩)
    · exact hgone hrunning
    · obtain ⟨l, hl⟩ := List.mem_iff_getElem?.mp hq
      have hl := live_eq_some.mpr ⟨hl, hlife⟩
      have hlt := hlater k l p q hp.1 hl hholds
      exact absurd (hyoungest l q hl) (Nat.not_le_of_lt hlt)
  refine ⟨k, p, hk, hnot, fun timeout hpc hbuffer now => ?_⟩
  -- without a writer `read` returns the end of the file, and the driver returns
  have hread := (hkept.custody.own p (List.mem_of_getElem? hp.1)).1
  simp only [step, hk, Option.bind_some, advance, hpc, readCommand, hread, if_pos hbuffer,
    if_neg hnot]

/-- Two drivers are created and enter `driver_main`, then the dispatcher is killed. -/
def killed : List (Option Action) :=
  [some (.type .createDriver), some .collected, some (.create (.forked 3 4 5 6 10)),
    some (.type .createDriver), some .collected, some (.create (.forked 3 6 7 8 11)),
    some (.advance 0 100), some (.advance 1 100), none]

theorem orphan_reads_eof_killed :
    ∃ s k p, run stepOrKill World.init killed = some s ∧ s.live k = some p ∧
      ¬ s.Held ⟨p.command, .write⟩ := by
  have hend : (run stepOrKill World.init killed).map
      (fun s => (s.pc, s.procs.map fun p => (p.life, p.entered))) =
        some (.ended, [(.live, true), (.live, true)]) := by decide
  obtain ⟨s, hrun, hs⟩ := Option.map_eq_some_iff.mp hend
  obtain ⟨hpc, hprocs⟩ := Prod.mk.inj hs
  have hall : ∀ p ∈ s.procs, p.life = .live ∧ p.entered = true := fun p hp => by
    have hmem : (p.life, p.entered) ∈ s.procs.map fun p => (p.life, p.entered) :=
      List.mem_map_of_mem hp
    simpa [hprocs] using hmem
  have hlive : ∃ p ∈ s.procs, p.life = .live := by
    have hmem : (Life.live, true) ∈ s.procs.map fun p => (p.life, p.entered) := by simp [hprocs]
    obtain ⟨p, hp, -⟩ := List.mem_map.mp hmem
    exact ⟨p, hp, (hall p hp).1⟩
  obtain ⟨k, p, hk, hnot, -⟩ := (orphan_reads_eof (Reachable.of_run rfl hrun)
    (fun hrunning => hrunning.1 hpc) fun p hp _ => (hall p hp).2).2 hlive
  exact ⟨s, k, p, hrun, hk, hnot⟩

end UnixLessons.Taxi

import UnixLessons.Taxi.Registry

/-!
# When a driver cannot be created

`create_driver` claims a slot, opens two pipes and forks. When a step fails it returns at
once and undoes nothing of what it did before: a slot that was claimed behind the others
stays counted, and the pipes that were opened stay open.

## Main results

* `length_fds_of_failed`: how many descriptors a failure leaves open
* `unchanged_iff`: the failures that change nothing
-/

namespace UnixLessons.Taxi

open Text Descriptors Transition

variable {s t : World} {o : World.Outcome}

namespace World

/-- The slots, their number and the descriptors of the dispatcher are as before. -/
structure Unchanged (s t : World) : Prop where
  drivers : t.drivers = s.drivers
  fds : ∀ fd, t.fds.lookup fd = s.fds.lookup fd

/-- The descriptors that are open when `create_driver` returns without a driver. -/
def Outcome.leaked : Outcome → ℕ
  | .firstPipeFails => 0
  | .secondPipeFails _ _ => 2
  | .forkFails _ _ _ _ | .forked _ _ _ _ _ => 4

end World

open World

/-- A slot is claimed without changing the array exactly if an inactive one is found. -/
theorem freeSlot_drivers {drivers slots : List Driver} {slot : ℕ}
    (hslot : freeSlot slots = some (drivers, slot)) :
    drivers = slots ↔ ∃ d ∈ slots, d.active = false := by
  unfold freeSlot at hslot
  split at hslot
  · rename_i i hfind
    cases hslot
    obtain ⟨hlt, hfree, -⟩ := List.findIdx?_eq_some_iff_getElem.mp hfind
    simp only [true_iff]
    exact ⟨_, List.getElem_mem hlt, by simpa using hfree⟩
  · rename_i hnone
    split at hslot
    · cases hslot
    · cases hslot
      have hall : ∀ d ∈ slots, d.active = true := fun d hd => by
        simpa using List.findIdx?_eq_none_iff.mp hnone d hd
      constructor
      · intro heq
        have hlength := congrArg List.length heq
        simp at hlength
      · rintro ⟨d, hd, hfree⟩
        rw [hall d hd] at hfree
        cases hfree

/-- What a failure leaves: the array with the slot claimed, and the pipes. -/
structure Leaves (s t : World) (o : Outcome) (drivers : List Driver) : Prop where
  drivers : t.drivers = drivers
  length_fds : t.fds.keys.length = s.fds.keys.length + o.leaked
  fds : (∀ fd, t.fds.lookup fd = s.fds.lookup fd) ↔ o = .firstPipeFails

/-- A descriptor that was not in use is open now. -/
theorem not_lookup_eq {fd : ℕ} {e : PipeEnd} (hnew : fd ∉ s.fds)
    (hopen : t.fds.lookup fd = some e) : ¬ ∀ fd, t.fds.lookup fd = s.fds.lookup fd := by
  intro hsame
  have hfd := hsame fd
  rw [hopen, AList.lookup_eq_none.mpr hnew] at hfd
  cases hfd

/-- No driver is created: the array is full, or a step fails. -/
theorem leaves_of_failed (hcreate : s.createDriver o = some t) (hfailed : t.procs = s.procs) :
    (freeSlot s.drivers = none ∧ t = s.giveUp .maximumReached) ∨
      ∃ drivers slot, freeSlot s.drivers = some (drivers, slot) ∧ Leaves s t o drivers := by
  unfold createDriver at hcreate
  split at hcreate
  · exact .inl ⟨‹_›, (Option.some.inj hcreate).symm⟩
  · rename_i drivers slot hslot
    refine .inr ⟨drivers, slot, hslot, ?_⟩
    cases o with
    | firstPipeFails =>
      cases hcreate
      exact ⟨rfl, rfl, by simp [giveUp]⟩
    | secondPipeFails r₁ w₁ =>
      obtain ⟨u, hu, rfl⟩ := Option.map_eq_some_iff.mp hcreate
      obtain ⟨hunused, rfl⟩ := pipe_eq_some hu
      refine ⟨rfl, length_keys_openPipe hunused, ?_⟩
      have hread : (openPipe s.fds r₁ w₁ s.pipes).lookup r₁ = some ⟨s.pipes, .read⟩ :=
        (lookup_openPipe hunused.2.2 r₁).trans (if_pos rfl)
      simpa using not_lookup_eq hunused.1 hread
    | forkFails r₁ w₁ r₂ w₂ =>
      obtain ⟨u, hu, hrest⟩ := Option.bind_eq_some_iff.mp hcreate
      obtain ⟨v, hv, rfl⟩ := Option.map_eq_some_iff.mp hrest
      obtain ⟨hunused, rfl⟩ := pipe_eq_some hu
      obtain ⟨hunused', rfl⟩ := pipe_eq_some hv
      refine ⟨rfl, ?_, ?_⟩
      · exact (length_keys_openPipe hunused').trans
          (congrArg (· + 2) (length_keys_openPipe hunused))
      · have hread : (openPipe (openPipe s.fds r₁ w₁ s.pipes) r₂ w₂ (s.pipes + 1)).lookup r₁ =
            some ⟨s.pipes, .read⟩ :=
          lookup_openPipe_of_lookup hunused' ((lookup_openPipe hunused.2.2 r₁).trans (if_pos rfl))
        simpa using not_lookup_eq hunused.1 hread
    | forked r₁ w₁ r₂ w₂ pid =>
      obtain ⟨u, hu, hrest⟩ := Option.bind_eq_some_iff.mp hcreate
      obtain ⟨v, hv, hfork⟩ := Option.bind_eq_some_iff.mp hrest
      obtain ⟨-, rfl⟩ := pipe_eq_some hu
      obtain ⟨-, rfl⟩ := pipe_eq_some hv
      obtain ⟨-, hsome⟩ := Option.ite_none_right_eq_some.mp hfork
      cases hsome
      simp at hfailed

/-- Each failed step leaves the descriptors opened before it. -/
theorem length_fds_of_failed (hcreate : s.createDriver o = some t) (hfailed : t.procs = s.procs)
    (hroom : freeSlot s.drivers ≠ none) : t.fds.keys.length = s.fds.keys.length + o.leaked := by
  rcases leaves_of_failed hcreate hfailed with ⟨hnone, -⟩ | ⟨drivers, slot, -, hleaves⟩
  · exact absurd hnone hroom
  · exact hleaves.length_fds

/-- **Failed creations.** When `create_driver` returns without having created a driver, slots
and descriptors are as before exactly if there was no slot for one, or if the first call of
`pipe` failed and the slot was one to be used again. -/
theorem unchanged_iff (hcreate : step s (.create o) = some t) (hfailed : t.procs = s.procs) :
    Unchanged s t ↔
      (∀ d ∈ s.drivers, d.active = true) ∧ maxDrivers ≤ s.drivers.length ∨
        o = .firstPipeFails ∧ ∃ d ∈ s.drivers, d.active = false := by
  have hcreate' : s.createDriver o = some t := (Option.ite_none_right_eq_some.mp hcreate).2
  rcases leaves_of_failed hcreate' hfailed with ⟨hnone, rfl⟩ | ⟨drivers, slot, hslot, hleaves⟩
  · exact iff_of_true ⟨rfl, fun _ => rfl⟩ (.inl (freeSlot_eq_none.mp hnone))
  · have hroom : ¬ ((∀ d ∈ s.drivers, d.active = true) ∧ maxDrivers ≤ s.drivers.length) := by
      rw [← freeSlot_eq_none, hslot]
      simp
    rw [or_iff_right hroom, ← freeSlot_drivers hslot, ← hleaves.fds]
    constructor
    · intro hsame
      exact ⟨hsame.fds, hleaves.drivers.symm.trans hsame.drivers⟩
    · rintro ⟨hfds, hdrivers⟩
      exact ⟨hleaves.drivers.trans hdrivers, hfds⟩

/-- A driver has died and its slot is free; the first pipe cannot be opened. -/
theorem unchanged_iff_slotFree :
    ∃ s t acts, run step World.init acts = some s ∧ step s (.create .firstPipeFails) = some t ∧
      s.drivers.length = 1 ∧ Unchanged s t := by
  let acts : List Action := [.type .createDriver, .collected, .create (.forked 3 4 5 6 10), .die 0,
    .type .createDriver, .reap 0, .collected]
  have hend : (run step World.init acts).map (fun s => (s.pc, s.drivers)) =
      some (.creating, [⟨10, 4, 5, false⟩]) := by decide
  obtain ⟨s, hrun, heq⟩ := Option.map_eq_some_iff.mp hend
  obtain ⟨hpc, hdrivers⟩ := Prod.mk.inj heq
  have hslot : freeSlot s.drivers = some (s.drivers, 0) := by
    rw [hdrivers]
    decide
  obtain ⟨t, hcreate, hprocs⟩ : ∃ t, step s (.create .firstPipeFails) = some t ∧
      t.procs = s.procs := by
    refine ⟨s.giveUp .pipeFailed, ?_, rfl⟩
    simp only [step, if_pos hpc, createDriver, hslot]
  refine ⟨s, t, acts, hrun, hcreate, by rw [hdrivers]; rfl, ?_⟩
  exact (unchanged_iff hcreate hprocs).mpr (.inr ⟨rfl, by rw [hdrivers]; decide⟩)

/-- With no driver yet, the first pipe cannot be opened, and afterwards there is one slot; or
`fork` fails, and four descriptors stay open. -/
theorem not_unchanged_atStart :
    (∃ s t, run step World.init [.type .createDriver, .collected] = some s ∧
      step s (.create .firstPipeFails) = some t ∧ t.procs = s.procs ∧
      s.drivers.length = 0 ∧ t.drivers.length = 1 ∧ ¬ Unchanged s t) ∧
    (∃ s t, run step World.init [.type .createDriver, .collected] = some s ∧
      step s (.create (.forkFails 3 4 5 6)) = some t ∧ t.procs = s.procs ∧
      s.fds.keys.length = 0 ∧ t.fds.keys.length = 4 ∧ ¬ Unchanged s t) := by
  refine ⟨⟨_, _, rfl, rfl, rfl, rfl, rfl, ?_⟩, ⟨_, _, rfl, rfl, rfl, rfl, rfl, ?_⟩⟩
  · intro hsame
    exact absurd (congrArg List.length hsame.drivers) (by decide)
  · intro hsame
    exact absurd (hsame.fds 3) (by decide)

end UnixLessons.Taxi

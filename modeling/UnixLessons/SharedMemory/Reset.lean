import UnixLessons.SharedMemory.SystemV

/-!
# Runs with System V objects

The server resets both semaphores before it writes, and both processes use the segment
and the set that the key stands for. So once the server has reset `sem[0]`, whatever the
client takes from it was posted by this server. Before that the client may take what an
earlier run has left, and then it reads the text of that run.

## Main results

* `Inv`: what holds before the reset, in the handshake and after it
* `inv_of_fresh`: a run in which the client does not take a leftover is as it should be
* `Inv.not_handshake`: a client that takes a leftover reads an old text
-/

namespace UnixLessons.SharedMemory.SystemV

open Processes Transition

variable {k : Kernel} {s t : State} {shm sem : ℕ} {ch ch' : Channel}

/-! ### Memory and semaphores -/

theorem Kernel.channel_eq_some :
    k.channel shm sem = some ch ↔
      ∃ e, k.segments.get shm = some e ∧ ch.memory = some e ∧
        k.sets.get sem = some (ch.s2c, ch.c2s) := by
  obtain ⟨memory, s2c, c2s⟩ := ch
  unfold Kernel.channel
  constructor
  · intro h
    split at h
    · rename_i e v he hv
      cases h
      exact ⟨e, he, rfl, hv⟩
    · cases h
  · rintro ⟨e, he, rfl, hv⟩
    rw [he, hv]

/-- What a process has stored is what the next one finds. -/
theorem Kernel.channel_put (h : k.channel shm sem = some ch) (hsome : ch'.memory.isSome) :
    (k.put shm sem ch').channel shm sem = some ch' := by
  obtain ⟨e, hget, _, hsems⟩ := channel_eq_some.mp h
  obtain ⟨e', he'⟩ := Option.isSome_iff_exists.mp hsome
  refine channel_eq_some.mpr ⟨e', ?_, he', Objects.get_put hsems⟩
  rw [Kernel.put, he']
  exact Objects.get_put hget

@[simp] theorem Kernel.name_put_segments : (k.put shm sem ch).segments.name = k.segments.name := by
  cases h : ch.memory <;> simp [Kernel.put, h]

/-! ### What a step of the handshake does -/

/-- The server's step, if the set has not been removed. -/
theorem State.serverTalk_of_channel {pc : ServerAt} (hshm : s.server.shm = some shm)
    (hsem : s.server.sem = some sem) (hchannel : s.kernel.channel shm sem = some ch)
    (hname : s.kernel.sets.name = some sem) (hstep : s.serverTalk pc = some t) :
    ∃ pc' ch' out, serverStep pc ch s.out = some (pc', ch', out) ∧
      t = ({ s with kernel := s.kernel.put shm sem ch', out }.serverAt (.talk pc')) := by
  simp only [State.serverTalk, hshm, hsem, hchannel, hname, Option.bind_eq_bind, Option.bind_some,
    ne_eq, not_true_eq_false, and_false, if_false] at hstep
  obtain ⟨⟨pc', ch', out⟩, hcore, ht⟩ := Option.bind_eq_some_iff.mp hstep
  exact ⟨pc', ch', out, hcore, (Option.some.inj ht).symm⟩

/-- The client's step, if the set has not been removed. -/
theorem State.clientTalk_of_channel {pc : ClientAt} (hshm : s.client.shm = some shm)
    (hsem : s.client.sem = some sem) (hchannel : s.kernel.channel shm sem = some ch)
    (hname : s.kernel.sets.name = some sem) (hstep : s.clientTalk pc = some t) :
    ∃ pc' ch' out, clientStep pc ch s.out = some (pc', ch', out) ∧
      t = ({ s with kernel := s.kernel.put shm sem ch', out }.clientAt (.talk pc')) := by
  simp only [State.clientTalk, hshm, hsem, hchannel, hname, Option.bind_eq_bind, Option.bind_some,
    ne_eq, not_true_eq_false, and_false, if_false] at hstep
  obtain ⟨⟨pc', ch', out⟩, hcore, ht⟩ := Option.bind_eq_some_iff.mp hstep
  exact ⟨pc', ch', out, hcore, (Option.some.inj ht).symm⟩

theorem State.clientTalk_of_step {pc pc' : ClientAt} {out : Outputs}
    (hshm : s.client.shm = some shm) (hsem : s.client.sem = some sem)
    (hchannel : s.kernel.channel shm sem = some ch)
    (hname : s.kernel.sets.name = some sem)
    (hcore : clientStep pc ch s.out = some (pc', ch', out)) :
    s.clientTalk pc =
      some ({ s with kernel := s.kernel.put shm sem ch', out }.clientAt (.talk pc')) := by
  simp [State.clientTalk, hshm, hsem, hchannel, hname, hcore]

/-- A client that takes a step has opened the segment and the set. -/
theorem State.exists_of_clientTalk {pc : ClientAt} (hstep : s.clientTalk pc = some t) :
    ∃ shm sem ch, s.client.shm = some shm ∧ s.client.sem = some sem ∧
      s.kernel.channel shm sem = some ch := by
  simp only [State.clientTalk, Option.bind_eq_bind, Option.bind_eq_some_iff] at hstep
  obtain ⟨shm, hshm, sem, hsem, ch, hchannel, _⟩ := hstep
  exact ⟨shm, sem, ch, hshm, hsem, hchannel⟩

/-! ### The invariant -/

/-- Where the server is in the handshake. -/
def ServerPc.place : ServerPc → Option ServerAt
  | .shmat => some .write
  | .talk pc => some pc
  | _ => none

/-- Where the client is in the handshake; before it, the client is as good as waiting. -/
def ClientPc.place : ClientPc → ClientAt
  | .talk pc => pc
  | _ => .wait

theorem ServerPc.hasReset_of_place {pc : ServerPc} {place : ServerAt}
    (h : pc.place = some place) : pc.hasReset = true := by
  cases pc with
  | shmat | talk _ => rfl
  | shmget | semget | setval0 | setval1 | rmSem | ended => cases h

/-- The client has got as far as `pc`, with the present objects. -/
structure ClientHas (s : State) (pc : ClientAt) : Prop where
  place : s.client.pc.place = pc
  segment : s.kernel.segments.Current s.client.shm
  set : s.kernel.sets.Current s.client.sem

/-- The server has opened the segment and the set. -/
structure ServerHas (s : State) (shm sem : ℕ) : Prop where
  opened : s.server.shm = some shm ∧ s.server.sem = some sem
  segment : s.kernel.segments.name = some shm
  set : s.kernel.sets.name = some sem

inductive Inv (s : State) : Prop
  | early (hpc : s.server.pc.hasReset = false)
      (hshm : s.server.pc = .semget ∨ s.server.pc = .setval0 →
      ∃ shm, s.server.shm = some shm)
      (hsegment : s.kernel.segments.Current s.server.shm)
      (hset : s.kernel.sets.Current s.server.sem)
      (hclient : ClientHas s .wait) (hout : s.out = .none)
      (hold : ∀ i e, s.kernel.segments.get i = some e → e.writer ≠ .server)
  | reset (hpc : s.server.pc = .setval1) (shm sem c2s : ℕ) (hserver : ServerHas s shm sem)
      (hsems : s.kernel.sets.get sem = some (0, c2s))
      (hclient : ClientHas s .wait) (hout : s.out = .none)
  | talks (σ : Stage) (shm sem : ℕ) (hpc : s.server.pc.place = some σ.server)
      (hserver : ServerHas s shm sem) (hchannel : s.kernel.channel shm sem = some σ.channel)
      (hclient : ClientHas s σ.client) (hout : s.out = σ.outputs)
  | removed (hpc : s.server.pc = .rmSem ∨ s.server.pc = .ended)
      (hclient : s.client.pc = .talk .done) (hout : Handshake s.out)

namespace Inv

theorem handshake (h : Inv s) : Handshake s.out := by
  cases h with
  | early _ _ _ _ _ hout => exact hout ▸ handshake_none
  | reset _ _ _ _ _ _ _ hout => exact hout ▸ handshake_none
  | talks σ _ _ _ _ _ _ hout => exact hout ▸ σ.handshake
  | removed _ _ hout => exact hout

/-- At the start all texts are those of earlier runs. -/
theorem start (k : Kernel) : Inv (start k) := by
  refine early rfl ?_ Objects.Current.none Objects.Current.none
    ⟨rfl, Objects.Current.none, Objects.Current.none⟩ rfl ?_
  · rintro (h | h) <;> cases h
  · intro i e he
    simp only [SystemV.start, Kernel.forget, Objects.get_map] at he
    obtain ⟨old, _, rfl⟩ := Option.map_eq_some_iff.mp he
    exact Writer.noConfusion

end Inv

/-! ### The client -/

namespace ClientHas

variable {pc : ClientAt}

/-- Until it is in the handshake, the client only opens the objects. -/
theorem opens (h : ClientHas s pc) (hpc : ∀ place, s.client.pc ≠ .talk place)
    (hstep : s.clientMove = some t) :
    t = { s with client := t.client } ∧ ClientHas t pc := by
  obtain ⟨hplace, hsegment, hset⟩ := h
  unfold State.clientMove at hstep
  split at hstep
  · rename_i hat
    rw [hat] at hplace
    split at hstep <;> cases hstep
    · rename_i shm hname
      exact ⟨rfl, hplace, .of_name hname, .none⟩
    · exact ⟨rfl, hplace, hsegment, hset⟩
  · rename_i hat
    rw [hat] at hplace
    split at hstep <;> cases hstep
    · rename_i sem hname
      exact ⟨rfl, hplace, hsegment, .of_name hname⟩
    · exact ⟨rfl, hplace, hsegment, hset⟩
  · rename_i hat
    rw [hat] at hplace
    cases hstep
    refine ⟨rfl, ?_, hsegment, hset⟩
    rw [← hplace]
    simp only [State.clientAt]
    split <;> rfl
  · rename_i place hat
    exact absurd hat (hpc place)
  · cases hstep

/-- A client with the present objects has those of the server. -/
theorem opened (h : ClientHas s pc) (hserver : ServerHas s shm sem) {place : ClientAt}
    (hstep : s.clientTalk place = some t) : s.client.shm = some shm ∧ s.client.sem = some sem := by
  obtain ⟨shm', sem', _, hshm, hsem, _⟩ := State.exists_of_clientTalk hstep
  have hsegment := h.segment
  have hset := h.set
  rw [hshm] at hsegment ⊢
  rw [hsem] at hset ⊢
  obtain rfl := hsegment.eq (.of_name hserver.segment)
  obtain rfl := hset.eq (.of_name hserver.set)
  exact ⟨rfl, rfl⟩

end ClientHas

theorem State.clientMove_talk {pc : ClientAt} (hpc : s.client.pc = .talk pc) :
    s.clientMove = s.clientTalk pc := by
  rw [State.clientMove, hpc]

/-- The client opens an object, or it takes a step of the handshake. -/
theorem Inv.client (h : Inv s) (hfresh : Fresh s .client) (hstep : s.clientMove = some t) :
    Inv t := by
  by_cases htalk : ∃ pc, s.client.pc = .talk pc
  · obtain ⟨pc, hat⟩ := htalk
    rw [State.clientMove_talk hat] at hstep
    cases h with
    | early hpc _ _ _ hclient =>
      -- it would take a unit before the reset
      have hwait : pc = .wait := by simpa only [hat, ClientPc.place] using hclient.place
      rw [hwait] at hat
      rw [hfresh hat] at hpc
      cases hpc
    | reset _ shm sem c2s hserver hsems hclient =>
      obtain ⟨hshm, hsem⟩ := hclient.opened hserver hstep
      obtain rfl : pc = .wait := by simpa only [hat, ClientPc.place] using hclient.place
      obtain ⟨e, he⟩ := s.kernel.segments.exists_get (s.kernel.segments.valid shm hserver.segment)
      have hchannel : s.kernel.channel shm sem = some ⟨some e, 0, c2s⟩ :=
        Kernel.channel_eq_some.mpr ⟨e, he, rfl, hsems⟩
      obtain ⟨_, _, _, hcore, _⟩ :=
        State.clientTalk_of_channel hshm hsem hchannel hserver.set hstep
      cases hcore
    | talks σ shm sem hpc hserver hchannel hclient hout =>
      obtain ⟨hshm, hsem⟩ := hclient.opened hserver hstep
      obtain rfl : pc = σ.client := by simpa only [hat, ClientPc.place] using hclient.place
      obtain ⟨pc, ch, out, hcore, rfl⟩ :=
        State.clientTalk_of_channel hshm hsem hchannel hserver.set hstep
      rw [hout] at hcore
      obtain ⟨τ, rfl, rfl, rfl, hsame⟩ := Stage.client_step hcore
      refine .talks τ shm sem (hsame ▸ hpc) ?_ (Kernel.channel_put hchannel rfl) ?_ rfl
      · exact ⟨hserver.opened, Kernel.name_put_segments.trans hserver.segment, hserver.set⟩
      · refine ⟨rfl, ?_, hclient.set⟩
        intro i hi
        exact Kernel.name_put_segments.trans (hclient.segment i hi)
    | removed _ hclient =>
      obtain ⟨shm, sem, _, hshm, hsem, _⟩ := State.exists_of_clientTalk hstep
      rw [hclient] at hat
      cases hat
      simp [State.clientTalk, hshm, hsem, clientStep] at hstep
  · have hopens : ∀ pc, s.client.pc ≠ .talk pc := fun pc hpc => htalk ⟨pc, hpc⟩
    cases h with
    | early hpc hshm hsegment hset hclient hout hold =>
      obtain ⟨ht, hclient⟩ := hclient.opens hopens hstep
      rw [ht] at hclient ⊢
      exact .early hpc hshm hsegment hset hclient hout hold
    | reset hpc shm sem c2s hserver hsems hclient hout =>
      obtain ⟨ht, hclient⟩ := hclient.opens hopens hstep
      rw [ht] at hclient ⊢
      exact .reset hpc shm sem c2s ⟨hserver.opened, hserver.segment, hserver.set⟩ hsems hclient hout
    | talks σ shm sem hpc hserver hchannel hclient hout =>
      obtain ⟨ht, hclient⟩ := hclient.opens hopens hstep
      rw [ht] at hclient ⊢
      exact .talks σ shm sem hpc ⟨hserver.opened, hserver.segment, hserver.set⟩ hchannel hclient
        hout
    | removed _ hclient => exact absurd hclient (hopens .done)

/-! ### The server -/

/-- `SETVAL` on the set the server has. -/
theorem State.setval_of_name {f : ℕ × ℕ → ℕ × ℕ} {pc : ServerPc} (hsem : s.server.sem = some sem)
    (hname : s.kernel.sets.name = some sem) (hstep : s.setval f pc = some t) :
    ∃ v, s.kernel.sets.get sem = some v ∧
      t = { s with
        kernel := { s.kernel with sets := s.kernel.sets.put sem (f v) } }.serverAt pc := by
  simp only [State.setval, hsem, Option.bind_eq_bind, Option.bind_some, hname, if_true] at hstep
  obtain ⟨v, hv, ht⟩ := Option.bind_eq_some_iff.mp hstep
  exact ⟨v, hv, (Option.some.inj ht).symm⟩

theorem State.exists_of_setval {f : ℕ × ℕ → ℕ × ℕ} {pc : ServerPc}
    (hstep : s.setval f pc = some t) : ∃ sem, s.server.sem = some sem := by
  simp only [State.setval, Option.bind_eq_bind, Option.bind_eq_some_iff] at hstep
  obtain ⟨sem, hsem, _⟩ := hstep
  exact ⟨sem, hsem⟩

/-- Before the reset the server opens or creates the two objects. -/
theorem Inv.server_early (hpc : s.server.pc.hasReset = false)
    (hshm : s.server.pc = .semget ∨ s.server.pc = .setval0 →
      ∃ shm, s.server.shm = some shm)
    (hsegment : s.kernel.segments.Current s.server.shm)
    (hset : s.kernel.sets.Current s.server.sem) (hclient : ClientHas s .wait)
    (hout : s.out = .none)
    (hold : ∀ i e, s.kernel.segments.get i = some e → e.writer ≠ .server)
    (hstep : s.serverMove = some t) : Inv t := by
  unfold State.serverMove at hstep
  split at hstep
  case h_1 =>
    cases hstep
    refine .early rfl ?_ Objects.Current.opened Objects.Current.none
      ⟨hclient.place, hclient.segment.openOrCreate, hclient.set⟩ hout ?_
    · exact fun _ => ⟨_, rfl⟩
    · -- a new segment has no text of this server
      intro i e he
      rcases Objects.get_openOrCreate he with hget | rfl
      · exact hold i e hget
      · exact Writer.noConfusion
  case h_2 hat =>
    cases hstep
    exact .early rfl (fun _ => hshm (.inl hat)) hsegment Objects.Current.opened
      ⟨hclient.place, hclient.segment, hclient.set.openOrCreate⟩ hout hold
  case h_3 hat =>
    obtain ⟨sem, hsem⟩ := State.exists_of_setval hstep
    obtain ⟨shm, hopened⟩ := hshm (.inr hat)
    rw [hsem] at hset
    rw [hopened] at hsegment
    obtain ⟨v, hv, rfl⟩ := State.setval_of_name hsem (hset sem rfl) hstep
    exact .reset rfl shm sem v.2 ⟨⟨hopened, hsem⟩, hsegment shm rfl, hset sem rfl⟩
      (Objects.get_put hv) ⟨hclient.place, hclient.segment, hclient.set⟩ hout
  all_goals
    rename_i hat
    rw [hat] at hpc
    cases hpc

/-- The handshake goes on, and after it the segment is removed. -/
theorem Inv.server_talks {σ : Stage} (hpc : s.server.pc.place = some σ.server)
    (hserver : ServerHas s shm sem) (hchannel : s.kernel.channel shm sem = some σ.channel)
    (hclient : ClientHas s σ.client) (hout : s.out = σ.outputs)
    (hstep : s.serverMove = some t) : Inv t := by
  unfold State.serverMove at hstep
  split at hstep
  case h_5 hat =>
    -- the segment is there, so it is attached
    rw [hserver.opened.1, if_pos hserver.segment] at hstep
    cases hstep
    rw [hat] at hpc
    exact .talks σ shm sem hpc ⟨hserver.opened, hserver.segment, hserver.set⟩ hchannel
      ⟨hclient.place, hclient.segment, hclient.set⟩ hout
  case h_6 hat =>
    cases hstep
    rw [hat] at hpc
    have hdone : s.client.pc.place = .done :=
      hclient.place.trans (σ.client_done (Option.some.inj hpc).symm)
    refine .removed (.inl rfl) ?_ (hout ▸ σ.handshake)
    change s.client.pc = .talk .done
    cases hat' : s.client.pc with
    | talk pc =>
      rw [hat'] at hdone
      exact congrArg ClientPc.talk hdone
    | shmget | semget | shmat | ended =>
      rw [hat'] at hdone
      cases hdone
  case h_7 pc _ hat =>
    obtain rfl : pc = σ.server := by simpa only [hat, ServerPc.place, Option.some.injEq] using hpc
    obtain ⟨pc, ch, out, hcore, rfl⟩ :=
      State.serverTalk_of_channel hserver.opened.1 hserver.opened.2 hchannel hserver.set hstep
    rw [hout] at hcore
    obtain ⟨τ, rfl, rfl, rfl, hsame⟩ := Stage.server_step hcore
    refine .talks τ shm sem rfl ?_ (Kernel.channel_put hchannel rfl) ?_ rfl
    · exact ⟨hserver.opened, Kernel.name_put_segments.trans hserver.segment, hserver.set⟩
    · refine ⟨hclient.place.trans hsame, ?_, hclient.set⟩
      intro i hi
      exact Kernel.name_put_segments.trans (hclient.segment i hi)
  all_goals
    rename_i hat
    rw [hat] at hpc
    cases hpc

theorem Inv.server (h : Inv s) (hstep : s.serverMove = some t) : Inv t := by
  cases h with
  | early hpc hshm hsegment hset hclient hout hold =>
    exact server_early hpc hshm hsegment hset hclient hout hold hstep
  | reset hpc shm sem c2s hserver hsems hclient hout =>
    have hsetval : s.serverMove = s.setval (fun v => (v.1, 0)) .shmat := by
      rw [State.serverMove, hpc]
    obtain ⟨v, hv, rfl⟩ :=
      State.setval_of_name hserver.opened.2 hserver.set (hsetval.symm.trans hstep)
    rw [hsems] at hv
    cases hv
    -- both semaphores are down now
    obtain ⟨e, he⟩ := s.kernel.segments.exists_get (s.kernel.segments.valid shm hserver.segment)
    refine .talks (.ready e) shm sem rfl ⟨hserver.opened, hserver.segment, hserver.set⟩ ?_
      ⟨hclient.place, hclient.segment, hclient.set⟩ hout
    exact Kernel.channel_eq_some.mpr ⟨e, he, rfl, Objects.get_put hsems⟩
  | talks σ shm sem hpc hserver hchannel hclient hout =>
    exact server_talks hpc hserver hchannel hclient hout hstep
  | removed hpc hclient hout =>
    unfold State.serverMove at hstep
    split at hstep
    case h_8 =>
      cases hstep
      exact .removed (.inr rfl) hclient hout
    case h_9 => cases hstep
    all_goals
      rename_i hat
      rcases hpc with hpc | hpc <;> rw [hpc] at hat <;> cases hat

/-! ### Whole runs -/

theorem Inv.step {p : Process} (h : Inv s) (hfresh : Fresh s p) (hstep : step s p = some t) :
    Inv t := by
  cases p with
  | server => exact h.server hstep
  | client => exact h.client hfresh hstep

theorem inv_of_fresh {acts : List Process} (hrun : run step (start k) acts = some s)
    (hfresh : Along step Fresh (start k) acts) : Inv s := by
  apply Along.run _ (Inv.start k) hfresh hrun
  intro s p t h hp hstep
  exact h.step hp hstep

/-- A client that takes a unit before the reset reads next, and the server has not
written yet. -/
theorem Inv.not_handshake {p : Process} (h : Inv s) (hnot : ¬ Fresh s p)
    (hstep : SystemV.step s p = some t) :
    ∃ u, SystemV.step t .client = some u ∧ ¬ Handshake u.out := by
  cases p with
  | server => exact absurd trivial hnot
  | client =>
    obtain ⟨hat, hreset⟩ : s.client.pc = .talk .wait ∧ s.server.pc.hasReset = false := by
      simpa only [Fresh, Classical.not_imp, Bool.not_eq_true] using hnot
    cases h with
    | early _ _ _ _ hclient hout hold =>
      have htalk : s.clientTalk .wait = some t := (State.clientMove_talk hat).symm.trans hstep
      obtain ⟨shm, sem, ch, hshm, hsem, hchannel⟩ := State.exists_of_clientTalk htalk
      have hname : s.kernel.sets.name = some sem := hclient.set sem hsem
      obtain ⟨pc, ch', out, hcore, rfl⟩ :=
        State.clientTalk_of_channel hshm hsem hchannel hname htalk
      obtain ⟨e, hget, hmemory, _⟩ := Kernel.channel_eq_some.mp hchannel
      obtain ⟨hpos, heq⟩ := Option.ite_none_right_eq_some.mp hcore
      cases heq
      -- the text it prints is in the segment already
      have hprint : clientStep .print { ch with s2c := ch.s2c - 1 } s.out =
          some (.write, { ch with s2c := ch.s2c - 1 }, { s.out with read := some e }) := by
        simp only [clientStep, hmemory]
      have hput : (s.kernel.put shm sem { ch with s2c := ch.s2c - 1 }).channel shm sem =
          some { ch with s2c := ch.s2c - 1 } := Kernel.channel_put hchannel (hmemory ▸ rfl)
      refine ⟨_, State.clientTalk_of_step hshm hsem hput hname hprint, ?_⟩
      exact not_handshake_of_writer rfl (hold shm e hget)
    | reset hpc =>
      rw [hpc] at hreset
      cases hreset
    | talks _ _ _ hpc =>
      rw [ServerPc.hasReset_of_place hpc] at hreset
      cases hreset
    | removed hpc =>
      rcases hpc with hpc | hpc <;> rw [hpc] at hreset <;> cases hreset

end UnixLessons.SharedMemory.SystemV

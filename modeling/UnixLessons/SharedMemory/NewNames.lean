import UnixLessons.SharedMemory.Posix

/-!
# Runs with POSIX objects

The server removes the semaphores' names before it creates the memory object. So a
client that has the server's memory object finds the server's semaphores or none. But a
client that has opened the memory object of an earlier run may get the semaphores of
this run, or old ones that are up.

## Main results

* `Inv`: what holds while the server creates its objects, in the handshake and after it
* `inv_of_fresh`: a run in which the client uses the server's memory is as it should be
* `Inv.not_handshake`: a client that gets past its semaphore with other memory is killed
  or reads an old text
-/

namespace UnixLessons.SharedMemory.Posix

open Processes Transition

variable {k : Kernel} {s t : State} {shm s2c c2s : ℕ} {ch ch' : Channel}

/-! ### Memory and semaphores -/

theorem Kernel.channel_eq_some :
    k.channel shm s2c c2s = some ch ↔
      k.shm.get shm = some ch.memory ∧ k.s2c.get s2c = some ch.s2c ∧
        k.c2s.get c2s = some ch.c2s := by
  obtain ⟨memory, up, down⟩ := ch
  unfold Kernel.channel
  constructor
  · intro h
    split at h
    · rename_i hmemory hs2c hc2s
      cases h
      exact ⟨hmemory, hs2c, hc2s⟩
    · cases h
  · rintro ⟨hmemory, hs2c, hc2s⟩
    rw [hmemory, hs2c, hc2s]

/-- What a process has stored is what the next one finds. -/
theorem Kernel.channel_put (h : k.channel shm s2c c2s = some ch) :
    (k.put shm s2c c2s ch').channel shm s2c c2s = some ch' := by
  obtain ⟨hmemory, hs2c, hc2s⟩ := channel_eq_some.mp h
  exact channel_eq_some.mpr
    ⟨Objects.get_put hmemory, Objects.get_put hs2c, Objects.get_put hc2s⟩

/-! ### What a step of the handshake does -/

/-- A server that takes a step has all three objects. -/
theorem State.serverTalk_eq_some {pc : ServerAt} :
    s.serverTalk pc = some t ↔
      ∃ shm s2c c2s ch pc' ch' out,
        (s.server.shm = some shm ∧ s.server.s2c = some s2c ∧ s.server.c2s = some c2s) ∧
        s.kernel.channel shm s2c c2s = some ch ∧
        serverStep pc ch s.out = some (pc', ch', out) ∧
        t = { s with kernel := s.kernel.put shm s2c c2s ch', out }.serverAt (.talk pc') := by
  simp only [State.serverTalk, Option.bind_eq_bind, Option.bind_eq_some_iff]
  constructor
  · rintro ⟨shm, hshm, s2c, hs2c, c2s, hc2s, ch, hchannel, ⟨pc', ch', out⟩, hcore, ht⟩
    exact ⟨shm, s2c, c2s, ch, pc', ch', out, ⟨hshm, hs2c, hc2s⟩, hchannel, hcore,
      (Option.some.inj ht).symm⟩
  · rintro ⟨shm, s2c, c2s, ch, pc', ch', out, ⟨hshm, hs2c, hc2s⟩, hchannel, hcore, rfl⟩
    exact ⟨shm, hshm, s2c, hs2c, c2s, hc2s, ch, hchannel, ⟨pc', ch', out⟩, hcore, rfl⟩

/-- A client that takes a step has all three objects. -/
theorem State.clientTalk_eq_some {pc : ClientAt} :
    s.clientTalk pc = some t ↔
      ∃ shm s2c c2s ch pc' ch' out,
        (s.client.shm = some shm ∧ s.client.s2c = some s2c ∧ s.client.c2s = some c2s) ∧
        s.kernel.channel shm s2c c2s = some ch ∧
        clientStep pc ch s.out = some (pc', ch', out) ∧
        t = { s with kernel := s.kernel.put shm s2c c2s ch', out }.clientAt (.talk pc') := by
  simp only [State.clientTalk, Option.bind_eq_bind, Option.bind_eq_some_iff]
  constructor
  · rintro ⟨shm, hshm, s2c, hs2c, c2s, hc2s, ch, hchannel, ⟨pc', ch', out⟩, hcore, ht⟩
    exact ⟨shm, s2c, c2s, ch, pc', ch', out, ⟨hshm, hs2c, hc2s⟩, hchannel, hcore,
      (Option.some.inj ht).symm⟩
  · rintro ⟨shm, s2c, c2s, ch, pc', ch', out, ⟨hshm, hs2c, hc2s⟩, hchannel, hcore, rfl⟩
    exact ⟨shm, hshm, s2c, hs2c, c2s, hc2s, ch, hchannel, ⟨pc', ch', out⟩, hcore, rfl⟩

/-! ### The invariant -/

/-- Where the client is in the handshake; before it, the client is as good as waiting. -/
def ClientPc.place : ClientPc → ClientAt
  | .talk pc => pc
  | _ => .wait

/-- No object but the server's has a text of this server. -/
def OldTexts (s : State) : Prop :=
  ∀ i e, s.server.shm ≠ some i → s.kernel.shm.get i = some (some e) → e.writer ≠ .server

/-- The names stand for the server's objects. -/
structure Named (s : State) : Prop where
  shm : s.kernel.shm.name = s.server.shm
  s2c : s.kernel.s2c.name = s.server.s2c
  c2s : s.kernel.c2s.name = s.server.c2s

/-- The client has got as far as `pc`. Past its semaphore it has the server's memory;
with the server's memory it has no semaphores but the server's. -/
structure ClientHas (s : State) (pc : ClientAt) : Prop where
  place : s.client.pc.place = pc
  memory : pc ≠ .wait → s.client.shm = s.server.shm
  s2c : s.client.shm = s.server.shm → ∀ i ∈ s.client.s2c, s.server.s2c = some i
  c2s : s.client.shm = s.server.shm → ∀ i ∈ s.client.c2s, s.server.c2s = some i

/-- What the server has created so far. -/
inductive Created (s : State) : Prop
  | memory (hpc : s.server.pc = .ftruncate) (hs2c : s.server.s2c = none) (i : ℕ)
      (hshm : s.server.shm = some i)
  | sized (hpc : s.server.pc = .openS2c) (hs2c : s.server.s2c = none) (i : ℕ) (e : Entry)
      (hshm : s.server.shm = some i) (hget : s.kernel.shm.get i = some (some e))
  | s2c (hpc : s.server.pc = .openC2s) (i j : ℕ) (e : Entry) (hshm : s.server.shm = some i)
      (hget : s.kernel.shm.get i = some (some e)) (hs2c : s.server.s2c = some j)
      (hsem : s.kernel.s2c.get j = some 0)

inductive Inv (s : State) : Prop
  | early (hpc : s.server.pc = .unlinkShm ∨ s.server.pc = .unlinkS2c ∨ s.server.pc = .unlinkC2s ∨
        s.server.pc = .shmOpen)
      (hserver : s.server.shm = none)
      (hshm : s.server.pc ≠ .unlinkShm → s.kernel.shm.name = none)
      (hs2c : s.server.pc = .unlinkC2s ∨ s.server.pc = .shmOpen → s.kernel.s2c.name = none)
      (hc2s : s.server.pc = .shmOpen → s.kernel.c2s.name = none)
      (hclient : s.client.pc.place = .wait)
      (hvalid : ∀ i ∈ s.client.shm, i < s.kernel.shm.all.length)
      (hout : s.out = .none) (hold : OldTexts s)
  | creates (hcreated : Created s) (hserver : s.server.c2s = none) (hnamed : Named s)
      (hclient : ClientHas s .wait) (hout : s.out = .none) (hold : OldTexts s)
  | talks (σ : Stage) (shm s2c c2s : ℕ) (hpc : s.server.pc = .talk σ.server)
      (hserver : s.server.shm = some shm ∧ s.server.s2c = some s2c ∧ s.server.c2s = some c2s)
      (hchannel : s.kernel.channel shm s2c c2s = some σ.channel) (hnamed : Named s)
      (hclient : ClientHas s σ.client) (hout : s.out = σ.outputs) (hold : OldTexts s)
  | removed (hpc : s.server.pc = .cleanS2c ∨ s.server.pc = .cleanC2s ∨ s.server.pc = .ended)
      (hclient : s.client.pc = .talk .done) (hout : Handshake s.out)

namespace Inv

theorem handshake (h : Inv s) : Handshake s.out := by
  cases h with
  | early _ _ _ _ _ _ _ hout => exact hout ▸ handshake_none
  | creates _ _ _ _ hout => exact hout ▸ handshake_none
  | talks σ _ _ _ _ _ _ _ _ hout => exact hout ▸ σ.handshake
  | removed _ _ hout => exact hout

/-- At the start all texts are those of earlier runs. -/
theorem start (k : Kernel) : Inv (start k) := by
  refine early (.inl rfl) rfl ?_ ?_ ?_ rfl ?_ rfl ?_
  · exact fun h => absurd rfl h
  · rintro (h | h) <;> cases h
  · intro h
    cases h
  · intro i h
    cases h
  · intro i e _ he
    simp only [Posix.start, Kernel.forget, Objects.get_map] at he
    obtain ⟨m, _, hm⟩ := Option.map_eq_some_iff.mp he
    obtain ⟨old, _, rfl⟩ := Option.map_eq_some_iff.mp hm
    exact Writer.noConfusion

end Inv

/-! ### The client -/

namespace ClientHas

variable {pc : ClientAt}

/-- Until it is in the handshake, the client only opens the objects that have the names. -/
theorem opens (h : ClientHas s pc) (hnamed : Named s) (hpc : ∀ place, s.client.pc ≠ .talk place)
    (hstep : s.clientMove = some t) :
    t = { s with client := t.client } ∧ ClientHas t pc := by
  obtain ⟨hplace, _, hs2c, hc2s⟩ := h
  unfold State.clientMove at hstep
  split at hstep
  · rename_i hat
    rw [hat] at hplace
    obtain rfl : ClientAt.wait = pc := hplace
    -- The memory found may be a crashed run's, and no semaphore is open with it yet.
    split at hstep <;> cases hstep
    · refine ⟨rfl, rfl, fun hne => absurd rfl hne, ?_, ?_⟩
      · intro _ i hi
        cases hi
      · intro _ i hi
        cases hi
    · exact ⟨rfl, rfl, fun hne => absurd rfl hne, hs2c, hc2s⟩
  · rename_i hat
    rw [hat] at hplace
    obtain rfl : ClientAt.wait = pc := hplace
    cases hstep
    -- A semaphore is opened by its name, which stands for the server's by now.
    refine ⟨rfl, rfl, fun hne => absurd rfl hne, ?_, ?_⟩
    · intro _ i hi
      exact hnamed.s2c.symm.trans hi
    · intro _ i hi
      cases hi
  · rename_i hat
    rw [hat] at hplace
    obtain rfl : ClientAt.wait = pc := hplace
    split at hstep <;> cases hstep
    · rename_i i j hi hj
      refine ⟨rfl, rfl, fun hne => absurd rfl hne, ?_, ?_⟩
      · intro hshm l hl
        cases hl
        exact hs2c hshm i hi
      · intro _ l hl
        cases hl
        exact hnamed.c2s.symm.trans hj
    · exact ⟨rfl, rfl, fun hne => absurd rfl hne, hs2c, hc2s⟩
  · rename_i place hat
    exact absurd hat (hpc place)
  · cases hstep

end ClientHas

theorem State.clientMove_talk {pc : ClientAt} (hpc : s.client.pc = .talk pc) :
    s.clientMove = s.clientTalk pc := by
  rw [State.clientMove, hpc]

/-- Before the server has memory, the client can only find old objects. -/
theorem Inv.client_early (hvalid : ∀ i ∈ s.client.shm, i < s.kernel.shm.all.length)
    (hpc : ∀ place, s.client.pc ≠ .talk place) (hstep : s.clientMove = some t) :
    t = { s with client := t.client } ∧ t.client.pc.place = .wait ∧
      ∀ i ∈ t.client.shm, i < s.kernel.shm.all.length := by
  unfold State.clientMove at hstep
  split at hstep
  · split at hstep <;> cases hstep
    · rename_i i hname
      refine ⟨rfl, rfl, ?_⟩
      intro j hj
      cases hj
      exact s.kernel.shm.valid i hname
    · exact ⟨rfl, rfl, hvalid⟩
  · cases hstep
    exact ⟨rfl, rfl, hvalid⟩
  · split at hstep <;> cases hstep <;> exact ⟨rfl, rfl, hvalid⟩
  · rename_i place hat
    exact absurd hat (hpc place)
  · cases hstep

/-- A step of the client in the handshake. -/
theorem Inv.client_talk {pc : ClientAt} (h : Inv s) (hat : s.client.pc = .talk pc)
    (hfresh : pc = .wait → s.client.shm = s.server.shm) (hstep : s.clientTalk pc = some t) :
    Inv t := by
  obtain ⟨shm', s2c', c2s', ch, pc', ch', out, ⟨hshm', hs2c', hc2s'⟩, hchannel', hcore, rfl⟩ :=
    State.clientTalk_eq_some.mp hstep
  cases h with
  | early _ hserver _ _ _ hclient =>
    -- it has memory, and the server has none
    have hwait : pc = .wait := by simpa only [hat, ClientPc.place] using hclient
    rw [hfresh hwait, hserver] at hshm'
    cases hshm'
  | creates _ hserver _ hclient =>
    -- it has the second semaphore, which the server has not created
    have hwait : pc = .wait := by simpa only [hat, ClientPc.place] using hclient.place
    have hc2s := hclient.c2s (hfresh hwait) c2s' hc2s'
    rw [hserver] at hc2s
    cases hc2s
  | talks σ shm s2c c2s hpc hserver hchannel hnamed hclient hout hold =>
    obtain rfl : pc = σ.client := by simpa only [hat, ClientPc.place] using hclient.place
    have hsame : s.client.shm = s.server.shm := by
      by_cases hwait : σ.client = .wait
      · exact hfresh hwait
      · exact hclient.memory hwait
    obtain rfl : shm = shm' := by
      rw [hserver.1, hshm'] at hsame
      exact (Option.some.inj hsame).symm
    obtain rfl : s2c = s2c' :=
      Option.some.inj (hserver.2.1.symm.trans (hclient.s2c hsame s2c' hs2c'))
    obtain rfl : c2s = c2s' :=
      Option.some.inj (hserver.2.2.symm.trans (hclient.c2s hsame c2s' hc2s'))
    rw [hchannel] at hchannel'
    cases hchannel'
    rw [hout] at hcore
    obtain ⟨τ, rfl, rfl, rfl, hserverAt⟩ := Stage.client_step hcore
    refine .talks τ shm s2c c2s (hserverAt ▸ hpc) hserver (Kernel.channel_put hchannel)
      ⟨hnamed.shm, hnamed.s2c, hnamed.c2s⟩ ⟨rfl, fun _ => hsame, hclient.s2c, hclient.c2s⟩ rfl ?_
    intro i e hne he
    have hi : shm ≠ i := by
      rintro rfl
      exact hne hserver.1
    exact hold i e hne ((Objects.get_put_of_ne hi).symm.trans he)
  | removed _ hclient =>
    rw [hclient] at hat
    cases hat
    cases hcore

/-- The client opens an object, or it takes a step of the handshake. -/
theorem Inv.client (h : Inv s) (hfresh : Fresh s .client) (hstep : s.clientMove = some t) :
    Inv t := by
  by_cases htalk : ∃ pc, s.client.pc = .talk pc
  · obtain ⟨pc, hat⟩ := htalk
    rw [State.clientMove_talk hat] at hstep
    apply h.client_talk hat _ hstep
    intro hwait
    exact hfresh (hwait ▸ hat)
  · have hopens : ∀ pc, s.client.pc ≠ .talk pc := fun pc hpc => htalk ⟨pc, hpc⟩
    cases h with
    | early hpc hserver hshm hs2c hc2s hclient hvalid hout hold =>
      obtain ⟨ht, hclient, hvalid⟩ := client_early hvalid hopens hstep
      rw [ht] at hclient hvalid ⊢
      exact .early hpc hserver hshm hs2c hc2s hclient hvalid hout hold
    | creates hcreated hserver hnamed hclient hout hold =>
      obtain ⟨ht, hclient⟩ := hclient.opens hnamed hopens hstep
      rw [ht] at hclient ⊢
      refine .creates ?_ hserver ⟨hnamed.shm, hnamed.s2c, hnamed.c2s⟩ hclient hout hold
      cases hcreated with
      | memory hpc hs2c i hshm => exact .memory hpc hs2c i hshm
      | sized hpc hs2c i e hshm hget => exact .sized hpc hs2c i e hshm hget
      | s2c hpc i j e hshm hget hs2c hsem => exact .s2c hpc i j e hshm hget hs2c hsem
    | talks σ shm s2c c2s hpc hserver hchannel hnamed hclient hout hold =>
      obtain ⟨ht, hclient⟩ := hclient.opens hnamed hopens hstep
      rw [ht] at hclient ⊢
      exact .talks σ shm s2c c2s hpc hserver hchannel ⟨hnamed.shm, hnamed.s2c, hnamed.c2s⟩ hclient
        hout hold
    | removed _ hclient => exact absurd hclient (hopens .done)

/-! ### The server -/

/-- A text in new memory is nobody's, and the others were there before. -/
theorem OldTexts.shmOpen (h : OldTexts s) (hserver : s.server.shm = none) {i : ℕ} {e : Entry}
    (he : (s.kernel.shm.openOrCreate none).1.get i = some (some e)) : e.writer ≠ .server := by
  rcases Objects.get_openOrCreate he with hget | hnone
  · exact h i e (by simp [hserver]) hget
  · cases hnone

/-- The server removes the three names and creates the memory object. -/
theorem Inv.server_early (hpc : s.server.pc = .unlinkShm ∨ s.server.pc = .unlinkS2c ∨
      s.server.pc = .unlinkC2s ∨ s.server.pc = .shmOpen)
    (hserver : s.server.shm = none)
    (hshm : s.server.pc ≠ .unlinkShm → s.kernel.shm.name = none)
    (hs2c : s.server.pc = .unlinkC2s ∨ s.server.pc = .shmOpen → s.kernel.s2c.name = none)
    (hc2s : s.server.pc = .shmOpen → s.kernel.c2s.name = none)
    (hclient : s.client.pc.place = .wait)
    (hvalid : ∀ i ∈ s.client.shm, i < s.kernel.shm.all.length)
    (hout : s.out = .none) (hold : OldTexts s) (hstep : s.serverMove = some t) : Inv t := by
  rcases hpc with hpc | hpc | hpc | hpc <;> simp only [State.serverMove, hpc] at hstep <;>
    cases hstep
  · refine .early (.inr (.inl rfl)) hserver (fun _ => rfl) ?_ ?_ hclient hvalid hout hold
    · rintro (h | h) <;> cases h
    · intro h
      cases h
  · refine .early (.inr (.inr (.inl rfl))) hserver ?_ (fun _ => rfl) ?_ hclient hvalid hout hold
    · exact fun _ => hshm (by simp [hpc])
    · intro h
      cases h
  · exact .early (.inr (.inr (.inr rfl))) hserver (fun _ => hshm (by simp [hpc]))
      (fun _ => hs2c (.inl hpc)) (fun _ => rfl) hclient hvalid hout hold
  · have hname : s.kernel.shm.name = none := hshm (by simp [hpc])
    have hcreate := Objects.openOrCreate_of_none (x := none) hname
    refine .creates (.memory rfl rfl _ rfl) rfl ⟨?_, hs2c (.inr hpc), hc2s hpc⟩
      ⟨hclient, fun hne => absurd rfl hne, ?_, ?_⟩ hout ?_
    · rw [hcreate]
      rfl
    -- the client has no object with this number yet
    · intro heq
      rw [hcreate] at heq
      exact absurd (hvalid _ heq) (Nat.lt_irrefl _)
    · intro heq
      rw [hcreate] at heq
      exact absurd (hvalid _ heq) (Nat.lt_irrefl _)
    · intro i e _ he
      exact hold.shmOpen hserver he

/-- The server gives its memory a size and creates the semaphores. -/
theorem Inv.server_creates (hcreated : Created s) (hserver : s.server.c2s = none) (hnamed : Named s)
    (hclient : ClientHas s .wait) (hout : s.out = .none) (hold : OldTexts s)
    (hstep : s.serverMove = some t) : Inv t := by
  cases hcreated with
  | memory hpc hs2c i hshm =>
    simp only [State.serverMove, hpc, State.ftruncate, hshm, Option.bind_eq_bind,
      Option.bind_some] at hstep
    obtain ⟨m, hm, ht⟩ := Option.bind_eq_some_iff.mp hstep
    cases ht
    refine .creates (.sized rfl hs2c i _ hshm (Objects.get_put hm)) hserver
      ⟨hnamed.shm, hnamed.s2c, hnamed.c2s⟩ ⟨hclient.place, hclient.memory, hclient.s2c, hclient.c2s⟩
      hout ?_
    intro j e hne he
    have hij : i ≠ j := by
      rintro rfl
      exact hne hshm
    exact hold j e hne ((Objects.get_put_of_ne hij).symm.trans he)
  | sized hpc hs2c i e hshm hget =>
    have hname : s.kernel.s2c.name = none := hnamed.s2c.trans hs2c
    simp only [State.serverMove, hpc, Objects.openOrCreate_of_none hname] at hstep
    cases hstep
    refine .creates (.s2c rfl i _ e hshm hget rfl Objects.get_create_new) rfl
      ⟨hnamed.shm, rfl, hnamed.c2s.trans hserver⟩
      ⟨hclient.place, hclient.memory, fun heq j hj => ?_, fun heq j hj => ?_⟩ hout hold
    -- a client with this memory has found no semaphore
    · cases (hclient.s2c heq j hj).symm.trans hs2c
    · cases (hclient.c2s heq j hj).symm.trans hserver
  | s2c hpc i j e hshm hget hs2c hsem =>
    have hname : s.kernel.c2s.name = none := hnamed.c2s.trans hserver
    simp only [State.serverMove, hpc, Objects.openOrCreate_of_none hname] at hstep
    cases hstep
    refine .talks (.ready e) i j _ rfl ⟨hshm, hs2c, rfl⟩ ?_ ⟨hnamed.shm, hnamed.s2c, rfl⟩
      ⟨hclient.place, hclient.memory, hclient.s2c, fun heq l hl => ?_⟩ hout hold
    · exact Kernel.channel_eq_some.mpr ⟨hget, hsem, Objects.get_create_new⟩
    · cases (hclient.c2s heq l hl).symm.trans hserver

/-- The handshake goes on, and after it the name of the memory is removed. -/
theorem Inv.server_talks {σ : Stage} (hpc : s.server.pc = .talk σ.server)
    (hserver : s.server.shm = some shm ∧ s.server.s2c = some s2c ∧ s.server.c2s = some c2s)
    (hchannel : s.kernel.channel shm s2c c2s = some σ.channel) (hnamed : Named s)
    (hclient : ClientHas s σ.client) (hout : s.out = σ.outputs) (hold : OldTexts s)
    (hstep : s.serverMove = some t) : Inv t := by
  unfold State.serverMove at hstep
  split at hstep
  case h_8 hat =>
    cases hstep
    -- The server removes the names only after its last wait, when the client is done with
    -- them.
    rw [hat] at hpc
    have hdone : s.client.pc.place = .done :=
      hclient.place.trans (σ.client_done (ServerPc.talk.inj hpc).symm)
    refine .removed (.inl rfl) ?_ (hout ▸ σ.handshake)
    change s.client.pc = .talk .done
    cases hat' : s.client.pc with
    | talk pc =>
      rw [hat'] at hdone
      exact congrArg ClientPc.talk hdone
    | shmOpen | openS2c | openC2s | ended =>
      rw [hat'] at hdone
      cases hdone
  case h_9 pc _ hat =>
    obtain rfl : pc = σ.server := ServerPc.talk.inj (hat.symm.trans hpc)
    obtain ⟨shm', s2c', c2s', ch, pc', ch', out, ⟨hshm', hs2c', hc2s'⟩, hchannel', hcore, rfl⟩ :=
      State.serverTalk_eq_some.mp hstep
    obtain rfl : shm = shm' := Option.some.inj (hserver.1.symm.trans hshm')
    obtain rfl : s2c = s2c' := Option.some.inj (hserver.2.1.symm.trans hs2c')
    obtain rfl : c2s = c2s' := Option.some.inj (hserver.2.2.symm.trans hc2s')
    rw [hchannel] at hchannel'
    cases hchannel'
    rw [hout] at hcore
    obtain ⟨τ, rfl, rfl, rfl, hsame⟩ := Stage.server_step hcore
    refine .talks τ shm s2c c2s rfl hserver (Kernel.channel_put hchannel)
      ⟨hnamed.shm, hnamed.s2c, hnamed.c2s⟩
      ⟨hclient.place.trans hsame, fun hne => hclient.memory (hsame ▸ hne), hclient.s2c,
        hclient.c2s⟩ rfl ?_
    intro i e hne he
    have hi : shm ≠ i := by
      rintro rfl
      exact hne hserver.1
    exact hold i e hne ((Objects.get_put_of_ne hi).symm.trans he)
  all_goals
    rename_i hat
    rw [hat] at hpc
    cases hpc

theorem Inv.server (h : Inv s) (hstep : s.serverMove = some t) : Inv t := by
  cases h with
  | early hpc hserver hshm hs2c hc2s hclient hvalid hout hold =>
    exact server_early hpc hserver hshm hs2c hc2s hclient hvalid hout hold hstep
  | creates hcreated hserver hnamed hclient hout hold =>
    exact server_creates hcreated hserver hnamed hclient hout hold hstep
  | talks σ shm s2c c2s hpc hserver hchannel hnamed hclient hout hold =>
    exact server_talks hpc hserver hchannel hnamed hclient hout hold hstep
  | removed hpc hclient hout =>
    rcases hpc with hpc | hpc | hpc <;> simp only [State.serverMove, hpc] at hstep <;> cases hstep
    · exact .removed (.inr (.inl rfl)) hclient hout
    · exact .removed (.inr (.inr rfl)) hclient hout

/-! ### Whole runs -/

theorem Inv.step {p : Process} (h : Inv s) (hfresh : Fresh s p) (hstep : step s p = some t) :
    Inv t := by
  cases p with
  | server => exact h.server hstep
  | client => exact h.client hfresh hstep

theorem inv_of_fresh {acts : List Process} (hrun : run step (start k) acts = some s)
    (hfresh : Along step Fresh (start k) acts) : Inv s := by
  apply Along.run _ (Inv.start k) hfresh hrun
  intro s p t h hp hstep
  exact h.step hp hstep

/-- A client with other memory than the server's that gets past its semaphore reads
next; if that memory has a size, it reads an old text. -/
theorem Inv.not_handshake {p : Process} (h : Inv s) (hnot : ¬ Fresh s p)
    (hstep : Posix.step s p = some t) :
    ∃ u, Posix.step t .client = some u ∧ (u.client.pc = .talk .killed ∨ ¬ Handshake u.out) := by
  cases p with
  | server => exact absurd trivial hnot
  | client =>
    obtain ⟨hat, hother⟩ : s.client.pc = .talk .wait ∧ s.client.shm ≠ s.server.shm := by
      simpa only [Fresh, Classical.not_imp] using hnot
    obtain ⟨shm, s2c, c2s, ch, pc, ch', out, ⟨hshm, hs2c, hc2s⟩, hchannel, hcore, rfl⟩ :=
      State.clientTalk_eq_some.mp ((State.clientMove_talk hat).symm.trans hstep)
    obtain ⟨hpos, heq⟩ := Option.ite_none_right_eq_some.mp hcore
    cases heq
    have hold : OldTexts s := by
      cases h with
      | early _ _ _ _ _ _ _ _ hold => exact hold
      | creates _ _ _ _ _ hold => exact hold
      | talks _ _ _ _ _ _ _ _ _ _ hold => exact hold
      | removed _ hclient =>
        rw [hclient] at hat
        cases hat
    have hput : (s.kernel.put shm s2c c2s { ch with s2c := ch.s2c - 1 }).channel shm s2c c2s =
        some { ch with s2c := ch.s2c - 1 } := Kernel.channel_put hchannel
    rcases clientStep_print { ch with s2c := ch.s2c - 1 } s.out with hprint | ⟨e, he, hprint⟩
    · refine ⟨_, State.clientTalk_eq_some.mpr
        ⟨shm, s2c, c2s, _, _, _, _, ⟨hshm, hs2c, hc2s⟩, hput, hprint, rfl⟩, .inl rfl⟩
    · refine ⟨_, State.clientTalk_eq_some.mpr
        ⟨shm, s2c, c2s, _, _, _, _, ⟨hshm, hs2c, hc2s⟩, hput, hprint, rfl⟩, .inr ?_⟩
      apply not_handshake_of_writer rfl
      apply hold shm e
      · exact fun hsame => hother (hshm.trans hsame.symm)
      · exact (Kernel.channel_eq_some.mp hchannel).1.trans (congrArg some he)

end UnixLessons.SharedMemory.Posix

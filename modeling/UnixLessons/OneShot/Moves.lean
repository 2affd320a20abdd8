import UnixLessons.OneShot.Server

/-!
# What the parties change

A statement of a service thread changes this thread, and of the clients only what
was sent to them; a statement of a client changes this client, and may add a
connection to what waits at a socket. This is said here once, for the results about
when threads end and when they can be connected to.

## Main results

* `service_move`: the statements of a service thread
* `client_move`: the statements of a client
-/

namespace UnixLessons.OneShot

open Text Transition
open ServicePool (endpoint parseEndpoint)

variable {s t u : Server} {a : Action} {c k l : ℕ} {th : Service} {ok : Bool}

/-- A statement of thread `k`: the thread itself, and flags of clients that say
what was sent to them. -/
structure ServiceMove (s : Server) (k : ℕ) (th : Service) (ok : Bool) (th' : Service)
    (t : Server) : Prop where
  eq : t = { s with threads := s.threads.set k th', client := t.client }
  port : th'.servicePort = th.servicePort
  ended : th'.pc = .ended ↔ th.pc.ends ok = true
  alive : th.pc ≠ .ended
  pc : ∀ c, (t.client c).pc = (s.client c).pc
  vanished : ∀ c, (t.client c).vanished = (s.client c).vanished
  inbox : ∀ c, (t.client c).inbox = (s.client c).inbox
  closed : ∀ c, (t.client c).closed = (s.client c).closed
  pending : th'.pending <:+ th.pending
  /-- A thread accepts a connection that waits, and each call before that succeeds
  or ends the thread. -/
  next : th'.pc = .ended ∨ (th.pc = .socket ∧ th'.pc = .bind) ∨
    (th.pc = .bind ∧ th'.pc = .listen ∧ s.taken th.servicePort = false) ∨
    (th.pc = .listen ∧ th'.pc = .accept) ∨
    (th.pc = .accept ∧ th.pending ≠ [] ∧ th'.pc.listening = true) ∨
    (th.pc.listening = true ∧ th.pc ≠ .accept ∧ th'.pc.listening = true)
  kept : th.pc ≠ .accept → th'.pending = th.pending

/-- Flags of clients that nobody's next statement depends on before it is read. -/
private theorem client_flag {x : Client} (hpc : x.pc = (s.client c).pc)
    (hvanished : x.vanished = (s.client c).vanished) (hinbox : x.inbox = (s.client c).inbox)
    (hclosed : x.closed = (s.client c).closed) (d : ℕ) :
    ((s.setClient c x).client d).pc = (s.client d).pc ∧
      ((s.setClient c x).client d).vanished = (s.client d).vanished ∧
      ((s.setClient c x).client d).inbox = (s.client d).inbox ∧
      ((s.setClient c x).client d).closed = (s.client d).closed := by
  by_cases hd : d = c
  · subst hd
    simp [Server.setClient, hpc, hvanished, hinbox, hclosed]
  · simp [Server.setClient, hd]

private theorem hangUp_flag (clients : List ℕ) (d : ℕ) :
    ((s.hangUp clients).client d).pc = (s.client d).pc ∧
      ((s.hangUp clients).client d).vanished = (s.client d).vanished ∧
      ((s.hangUp clients).client d).inbox = (s.client d).inbox ∧
      ((s.hangUp clients).client d).closed = (s.client d).closed := by
  simp only [Server.hangUp]
  split <;> exact ⟨rfl, rfl, rfl, rfl⟩

/-- The thread goes on and nothing else changes. -/
private theorem goesOn_move {pc : ThreadPc} (halive : th.pc ≠ .ended)
    (hended : pc = .ended ↔ th.pc.ends ok = true)
    (hnext : pc = .ended ∨ (th.pc = .socket ∧ pc = .bind) ∨
      (th.pc = .bind ∧ pc = .listen ∧ s.taken th.servicePort = false) ∨
      (th.pc = .listen ∧ pc = .accept) ∨
      (th.pc = .accept ∧ th.pending ≠ [] ∧ pc.listening = true) ∨
      (th.pc.listening = true ∧ th.pc ≠ .accept ∧ pc.listening = true)) :
    ServiceMove s k th ok { th with pc } (s.setThread k { th with pc }) where
  eq := rfl
  port := rfl
  ended := hended
  alive := halive
  pc _ := rfl
  vanished _ := rfl
  inbox _ := rfl
  closed _ := rfl
  pending := List.suffix_rfl
  next := hnext
  kept _ := rfl

private theorem giveUp_move (halive : th.pc ≠ .ended) (hends : th.pc.ends ok = true) :
    ServiceMove s k th ok { th with pc := .ended }
      ((s.setThread k { th with pc := .ended }).hangUp th.pending) where
  eq := rfl
  port := rfl
  ended := by simp [hends]
  alive := halive
  pc d := (hangUp_flag th.pending d).1
  vanished d := (hangUp_flag th.pending d).2.1
  inbox d := (hangUp_flag th.pending d).2.2.1
  closed d := (hangUp_flag th.pending d).2.2.2
  pending := List.suffix_rfl
  next := .inl rfl
  kept _ := rfl

/-- Every statement of a service thread is such a move. -/
theorem service_move (hstep : serviceServerThread s k th ok = some t) :
    ∃ th', ServiceMove s k th ok th' t := by
  unfold serviceServerThread at hstep
  dsimp only at hstep
  cases hpc : th.pc with
  -- `bind` waits for its port to be free, and may fail all the same
  | bind =>
    simp only [hpc] at hstep
    cases ok with
    | true =>
      rw [if_pos rfl] at hstep
      split at hstep
      · cases hstep
      · rename_i hfree
        cases hstep
        exact ⟨_, goesOn_move (by simp [hpc]) (by simp [hpc, ThreadPc.ends])
          (by simp [hpc, Bool.eq_false_iff.mpr hfree])⟩
    | false =>
      cases hstep
      exact ⟨_, giveUp_move (by simp [hpc]) (by simp [hpc, ThreadPc.ends])⟩
  | socket | listen =>
    simp only [hpc, Option.some.injEq] at hstep
    cases ok with
    | true =>
      subst hstep
      exact ⟨_, goesOn_move (by simp [hpc]) (by simp [hpc, ThreadPc.ends]) (by simp [hpc])⟩
    | false =>
      subst hstep
      exact ⟨_, giveUp_move (by simp [hpc]) (by simp [hpc, ThreadPc.ends])⟩
  | accept =>
    simp only [hpc] at hstep
    cases ok with
    | true =>
      rw [if_pos rfl] at hstep
      split at hstep
      · cases hstep
      · rename_i c pending hpending
        cases hstep
        refine ⟨{ th with pc := .read c, pending }, rfl, rfl, ?_, ?_, fun _ => rfl, fun _ => rfl,
          fun _ => rfl, fun _ => rfl, ?_, ?_, ?_⟩
        · simp [hpc, ThreadPc.ends]
        · simp [hpc]
        · rw [hpending]
          exact List.suffix_cons c pending
        · simp [hpc, hpending, ThreadPc.listening]
        · exact fun hnot => absurd hpc hnot
    | false =>
      cases hstep
      exact ⟨_, giveUp_move (by simp [hpc]) (by simp [hpc, ThreadPc.ends])⟩
  | read c =>
    simp only [hpc] at hstep
    split at hstep
    · cases hstep
      exact ⟨_, goesOn_move (by simp [hpc]) (by simp [hpc, ThreadPc.ends])
        (by simp [hpc, ThreadPc.listening])⟩
    · cases hstep
  -- the thread moves on whether its client is still there or not
  | reply c buffer =>
    have hmove : ServiceMove s k th ok { th with pc := .close c }
        (s.setThread k { th with pc := .close c }) :=
      goesOn_move (by simp [hpc]) (by simp [hpc, ThreadPc.ends])
        (by simp [hpc, ThreadPc.listening])
    simp only [hpc] at hstep
    split at hstep
    · cases hstep
      have hflag := client_flag (s := s.setThread k { th with pc := .close c })
        (c := c) (x := { s.client c with replied := true }) rfl rfl rfl rfl
      exact ⟨_, { hmove with
        eq := rfl
        pc := fun d => (hflag d).1
        vanished := fun d => (hflag d).2.1
        inbox := fun d => (hflag d).2.2.1
        closed := fun d => (hflag d).2.2.2 }⟩
    · cases hstep
      exact ⟨_, hmove⟩
  | close c =>
    have hmove : ServiceMove s k th ok { th with pc := .closeService }
        (s.setThread k { th with pc := .closeService }) :=
      goesOn_move (by simp [hpc]) (by simp [hpc, ThreadPc.ends])
        (by simp [hpc, ThreadPc.listening])
    simp only [hpc, Option.some.injEq] at hstep
    subst hstep
    have hflag := client_flag (s := s.setThread k { th with pc := .closeService })
      (c := c) (x := { s.client c with hungUp := true }) rfl rfl rfl rfl
    exact ⟨_, { hmove with
      eq := rfl
      pc := fun d => (hflag d).1
      vanished := fun d => (hflag d).2.1
      inbox := fun d => (hflag d).2.2.1
      closed := fun d => (hflag d).2.2.2 }⟩
  | closeService =>
    simp only [hpc, Option.some.injEq] at hstep
    subst hstep
    exact ⟨_, giveUp_move (by simp [hpc]) (by simp [hpc, ThreadPc.ends])⟩
  | ended => simp [hpc] at hstep

/-- A thread becomes bound only to a port that is free. -/
theorem ServiceMove.bound {th' : Service} (h : ServiceMove s k th ok th' t)
    (hbound : th'.pc.bound = true) : th.pc.bound = true ∨ s.taken th.servicePort = false := by
  rcases h.next with hpc | ⟨-, hpc⟩ | ⟨-, -, hfree⟩ | ⟨hpc, -⟩ | ⟨hpc, -⟩ | ⟨hlistening, -⟩
  · simp [hpc, ThreadPc.bound] at hbound
  · simp [hpc, ThreadPc.bound] at hbound
  · exact .inr hfree
  · exact .inl (by rw [hpc]; rfl)
  · exact .inl (by rw [hpc]; rfl)
  · refine .inl ?_
    cases hpc : th.pc <;> simp [hpc, ThreadPc.listening, ThreadPc.bound] at hlistening ⊢

/-! ### Clients -/

/-- The statements of client `c`, by what they are about. -/
inductive ClientMove (s : Server) (c : ℕ) : Server → Prop
  | asks (pc : (s.client c).pc = .start) :
    ClientMove s c { s.setClient c { s.client c with pc := .waiting } with
      backlog := s.backlog ++ [c] }
  /-- The main thread has hung up without an answer. -/
  | learnsNothing (pc : (s.client c).pc = .waiting) (inbox : (s.client c).inbox = none)
      (gone : (s.client c).closed ∨ s.mainAt = .exited) :
    ClientMove s c (s.setClient c { s.client c with pc := .lost })
  | reads (buffer : CString) (pc : (s.client c).pc = .waiting)
      (inbox : (s.client c).inbox = some buffer) :
    ClientMove s c (s.setClient c { s.client c with
      pc := match parseEndpoint buffer with
        | some e => .handed e.2
        | none => .lost })
  | refused (port : ℤ) (pc : (s.client c).pc = .handed port) (nobody : listener s port = none) :
    ClientMove s c (s.setClient c { s.client c with pc := .failed })
  | connects (port : ℤ) (k : ℕ) (th : Service) (pc : (s.client c).pc = .handed port)
      (found : listener s port = some k) (thread : s.threads[k]? = some th) :
    ClientMove s c ((s.setClient c { s.client c with pc := .connected }).setThread k
      { th with pending := th.pending ++ [c] })
  /-- It is connected and stays so, or is done. -/
  | talks (x : Client) (before : (s.client c).pc = .connected ∨ (s.client c).pc = .asked)
      (after : x.pc = .asked ∨ x.pc = .done) (inbox : x.inbox = (s.client c).inbox)
      (vanished : x.vanished = (s.client c).vanished) : ClientMove s c (s.setClient c x)

theorem client_move (hstep : clientStep s c = some t) : ClientMove s c t := by
  unfold clientStep at hstep
  dsimp only at hstep
  split at hstep
  · cases hstep
    exact .asks ‹_›
  · rename_i hpc
    split at hstep
    -- without an answer the client waits until the connection is closed
    · rename_i hinbox
      split at hstep
      · rename_i hgone
        cases hstep
        exact .learnsNothing hpc hinbox hgone
      · cases hstep
    · rename_i hinbox
      cases hstep
      exact .reads _ hpc hinbox
  · rename_i hpc
    split at hstep
    · rename_i hnobody
      cases hstep
      exact .refused _ hpc hnobody
    · rename_i hfound
      obtain ⟨th, hth, rfl⟩ := Option.map_eq_some_iff.mp hstep
      exact .connects _ _ th hpc hfound hth
  · rename_i hpc
    cases hstep
    exact .talks _ (.inl hpc) (.inl rfl) rfl rfl
  · rename_i hpc
    split at hstep
    · cases hstep
      exact .talks _ (.inr hpc) (.inr rfl) rfl rfl
    · cases hstep
  · cases hstep
  · cases hstep
  · cases hstep

/-! ### The steps of threads and clients -/

/-- A thread that takes a step is there and makes one of its moves. -/
theorem step_service (hstep : step s (.service k ok) = some t) :
    ∃ th th', s.threads[k]? = some th ∧ ServiceMove s k th ok th' t := by
  obtain ⟨-, hbind⟩ := Option.ite_none_left_eq_some.mp hstep
  obtain ⟨th, hth, hservice⟩ := Option.bind_eq_some_iff.mp hbind
  obtain ⟨th', hmove⟩ := service_move hservice
  exact ⟨th, th', hth, hmove⟩

/-- A client that takes a step is running and makes one of its moves. -/
theorem step_client (hstep : step s (.client c) = some t) :
    (s.client c).vanished = false ∧ ClientMove s c t := by
  obtain ⟨hrunning, hclient⟩ := Option.ite_none_left_eq_some.mp hstep
  exact ⟨Bool.eq_false_iff.mpr hrunning, client_move hclient⟩

/-! ### Threads that have ended -/

theorem ended_iff : s.Ended k ↔ ∃ th, s.threads[k]? = some th ∧ th.pc = .ended :=
  Option.map_eq_some_iff

/-- A thread that is set has ended or not, the others are as before. -/
theorem ended_set {threads : List Service} {th : Service} (th' : Service)
    (hk : threads[k]? = some th)
    (hended : th'.pc = .ended ↔ th.pc = .ended) (l : ℕ) :
    (threads.set k th')[l]?.map Service.pc = some .ended ↔
      threads[l]?.map Service.pc = some .ended := by
  by_cases hl : l = k
  · subst hl
    have hlt : l < threads.length := (List.getElem?_eq_some_iff.mp hk).1
    rw [List.getElem?_set_self hlt, hk]
    simpa using hended
  · rw [List.getElem?_set_ne (Ne.symm hl)]

/-- What a service thread does to the others is nothing, and it may end itself. -/
theorem ServiceMove.ended_iff {th' : Service} (h : ServiceMove s k th ok th' t)
    (hk : s.threads[k]? = some th) (l : ℕ) :
    t.Ended l ↔ s.Ended l ∨ l = k ∧ th.pc.ends ok = true := by
  have hlt : k < s.threads.length := (List.getElem?_eq_some_iff.mp hk).1
  rw [h.eq]
  by_cases hl : l = k
  · subst hl
    simp [Server.Ended, List.getElem?_set_self hlt, hk, h.ended, h.alive]
  · simp [Server.Ended, List.getElem?_set_ne (Ne.symm hl), hl]

theorem ClientMove.ended_iff (h : ClientMove s c t) (l : ℕ) : t.Ended l ↔ s.Ended l := by
  cases h with
  | connects port k th _ _ hth =>
    exact ended_set { th with pending := th.pending ++ [c] } hth Iff.rfl l
  | _ => exact Iff.rfl

end UnixLessons.OneShot

import Mathlib.Algebra.BigOperators.Group.Finset.Basic
import Mathlib.Algebra.Order.BigOperators.Group.Finset
import UnixLessons.Sockets.Connections
import UnixLessons.Transition.Completion

/-!
# Nobody waits for the answer in vain

The end of the server closes every connection, so the clients that are not accepted do not
wait, unlike those of the servers that take datagrams.

## Main results

* `answered_once`: how a run ends in which no call fails
* `length_le`: no run has more steps than the processes have statements
-/

namespace UnixLessons.Connections

open Text Transition State

variable {N : ℕ} {program : Program} {s t : State N} {a : Action N} {acts : List (Action N)}
  {j k : Fin N} {ok : Bool} {c : Client}

/-- The client whose connection has been accepted. -/
def ServerPc.accepted : ServerPc N → Option (Fin N)
  | .read k | .write k => some k
  | _ => none

namespace Client

/-- Nothing has come from the server. -/
def Unanswered (c : Client) : Prop := c.toClient = [] ∧ c.out = []

def Answered (c : Client) : Prop :=
  (c.pc = .read ∧ c.toClient = response ∧ c.out = []) ∨ (c.pc = .done ∧ c.out = [response])

def Connected (c : Client) : Prop := c.pc = .write ∨ c.pc = .read

def Outside (c : Client) : Prop := c.pc = .socket ∨ c.pc = .connect ∨ c.pc = .failed

end Client

open Client

/-- The client is connected, or its connection was accepted. -/
def Here (s : State N) (j : Fin N) : Prop := j ∈ s.line ∨ s.server.accepted = some j

/-- As long as the server has not answered, in a run in which no call fails. -/
structure Open (s : State N) : Prop where
  server : s.server = .setup ∨ s.server = .accept ∨ ∃ k, s.server.accepted = some k
  unanswered : ∀ j, (s.client j).Unanswered
  here : ∀ j, Here s j → (s.client j).Connected
  away : ∀ j, ¬ Here s j → (s.client j).Outside
  silent : ∀ j, (s.client j).pc ≠ .read → (s.client j).toServer = []
  letter : ∀ j, (s.client j).pc = .read → (s.client j).toServer = message ∨ s.server = .write j
  ready : ∀ k, s.server = .write k → (s.client k).pc = .read

/-- The server has answered one client. -/
structure Closed (s : State N) : Prop where
  server : s.server = .done
  answer : ∃ k, (s.client k).Answered ∧ ∀ j, j ≠ k → (s.client j).Unanswered

theorem Open.start : Open (start N) where
  server := .inl rfl
  unanswered _ := ⟨rfl, rfl⟩
  here _ h := by simp [Here, Connections.start, ServerPc.accepted] at h
  away _ _ := .inl rfl
  silent _ _ := rfl
  letter _ h := by cases h
  ready _ h := by cases h

@[simp] theorem client_setClient_self (s : State N) (j : Fin N) (c : Client) :
    (s.setClient j c).client j = c :=
  Function.update_self ..

theorem client_setClient_of_ne (s : State N) (c : Client) (hk : k ≠ j) :
    (s.setClient j c).client k = s.client k :=
  Function.update_of_ne hk ..

/-- What holds of one client after its change and of all the others as they are. -/
theorem forall_setClient {P : Fin N → Client → Prop} (hj : P j c)
    (hothers : ∀ k, k ≠ j → P k (s.client k)) : ∀ k, P k ((s.setClient j c).client k) :=
  (Function.forall_update_iff s.client P).mpr ⟨hj, hothers⟩

theorem Open.not_ended (h : Open s) : s.ended = false := by
  rcases h.server with hserver | hserver | ⟨k, hk⟩
  · simp [State.ended, hserver]
  · simp [State.ended, hserver]
  · cases hserver : s.server <;> simp_all [State.ended, ServerPc.accepted]

/-- A client goes on without leaving the line or coming into it. -/
theorem Open.setClient (h : Open s) (hun : c.Unanswered)
    (hconn : (s.client j).Connected → c.Connected) (hout : (s.client j).Outside → c.Outside)
    (hsilent : c.pc ≠ .read → c.toServer = [])
    (hletter : c.pc = .read → c.toServer = message ∨ s.server = .write j)
    (hready : s.server = .write j → c.pc = .read) : Open (s.setClient j c) where
  server := h.server
  unanswered := forall_setClient (P := fun _ c => c.Unanswered) hun fun k _ => h.unanswered k
  here := forall_setClient (P := fun k c => Here s k → c.Connected)
    (fun hj => hconn (h.here j hj)) fun k _ => h.here k
  away := forall_setClient (P := fun k c => ¬ Here s k → c.Outside)
    (fun hj => hout (h.away j hj)) fun k _ => h.away k
  silent := forall_setClient (P := fun _ c => c.pc ≠ .read → c.toServer = []) hsilent
    fun k _ => h.silent k
  letter := forall_setClient
    (P := fun k c => c.pc = .read → c.toServer = message ∨ s.server = .write k) hletter
    fun k _ => h.letter k
  ready := forall_setClient (P := fun k c => s.server = .write k → c.pc = .read) hready
    fun k _ => h.ready k

/-- A client comes into the line. -/
theorem Open.connect (h : Open s) (hpc : (s.client j).pc = .connect) :
    Open ({ s with line := s.line ++ [j] }.setClient j ((s.client j).goto .write)) := by
  have hhere : ∀ k, k ≠ j → (Here { s with line := s.line ++ [j] } k ↔ Here s k) := by
    intro k hk
    simp [Here, hk]
  have hj : Here { s with line := s.line ++ [j] } j := .inl (by simp)
  refine ⟨h.server, ?_, ?_, ?_, ?_, ?_, ?_⟩
  · exact forall_setClient (P := fun _ c => c.Unanswered) (h.unanswered j) fun k _ => h.unanswered k
  · exact forall_setClient (P := fun k c => Here { s with line := s.line ++ [j] } k → c.Connected)
      (fun _ => .inl rfl) fun k hk hin => h.here k ((hhere k hk).mp hin)
  · exact forall_setClient (P := fun k c => ¬ Here { s with line := s.line ++ [j] } k → c.Outside)
      (fun hnot => absurd hj hnot) fun k hk hnot => h.away k (mt (hhere k hk).mpr hnot)
  · exact forall_setClient (P := fun _ c => c.pc ≠ .read → c.toServer = [])
      (fun _ => h.silent j (by simp [hpc])) fun k _ => h.silent k
  · exact forall_setClient
      (P := fun k c => c.pc = .read → c.toServer = message ∨ s.server = .write k)
      (fun hread => by cases hread) fun k _ => h.letter k
  · refine forall_setClient (P := fun k c => s.server = .write k → c.pc = .read) (fun hwrite => ?_)
      fun k _ => h.ready k
    have hread := h.ready j hwrite
    rw [hpc] at hread
    cases hread

theorem Open.client_step (h : Open s) (hmain : s.clientMain program j true = some t) : Open t := by
  obtain ⟨hnone, hout⟩ := h.unanswered j
  have hover := h.not_ended
  cases hpc : (s.client j).pc with
  | socket =>
    simp only [clientMain, hpc, if_true, Option.some.injEq] at hmain
    subst hmain
    refine h.setClient ⟨hnone, hout⟩ (fun hc => ?_) (fun _ => .inr (.inl rfl))
      (fun _ => h.silent j (by simp [hpc])) (fun hread => by cases hread) (fun hw => ?_)
    · simp [Connected, hpc] at hc
    · have := h.ready j hw
      simp [hpc] at this
  | connect =>
    simp only [clientMain, hpc, true_and] at hmain
    split_ifs at hmain with hlistens hroom
    · obtain rfl := Option.some.inj hmain
      exact h.connect hpc
    · obtain rfl := Option.some.inj hmain
      refine h.setClient ⟨hnone, hout⟩ (fun hc => ?_) (fun _ => .inr (.inr rfl))
        (fun _ => h.silent j (by simp [hpc])) (fun hread => by cases hread) (fun hw => ?_)
      · simp [Connected, hpc] at hc
      · have := h.ready j hw
        simp [hpc] at this
  | write =>
    simp only [clientMain, hpc, hover, Bool.false_eq_true, if_false, if_true,
      Option.some.injEq] at hmain
    subst hmain
    exact h.setClient ⟨hnone, hout⟩ (fun _ => .inr rfl) (fun hc => by simp [Outside, hpc] at hc)
      (fun hne => absurd rfl hne) (fun _ => .inl rfl) (fun _ => rfl)
  | read => simp [clientMain, hpc, hnone, hover] at hmain
  | done | failed | killed => simp [clientMain, hpc] at hmain

/-- The server has read from the client it has accepted. -/
theorem Open.read (h : Open s) (hserver : s.server = .read k) (hread : (s.client k).pc = .read)
    (serverOut : List CString) (toServer : CString) :
    Open (({ s with serverOut }.setClient k { s.client k with toServer }).serverGoto
      (.write k)) := by
  have hhere : ∀ j, (j ∈ s.line ∨ some k = some j) → Here s j := by
    intro j hj
    rwa [Here, hserver]
  have haway : ∀ j, ¬ (j ∈ s.line ∨ some k = some j) → ¬ Here s j := by
    intro j hj
    rwa [Here, hserver]
  refine ⟨.inr (.inr ⟨k, rfl⟩), ?_, ?_, ?_, ?_, ?_, ?_⟩
  · exact forall_setClient (P := fun _ c => c.Unanswered) (h.unanswered k) fun j _ => h.unanswered j
  · exact forall_setClient (P := fun j c => j ∈ s.line ∨ some k = some j → c.Connected)
      (fun hk => h.here k (hhere k hk)) fun j _ hj => h.here j (hhere j hj)
  · exact forall_setClient (P := fun j c => ¬ (j ∈ s.line ∨ some k = some j) → c.Outside)
      (fun hk => h.away k (haway k hk)) fun j _ hj => h.away j (haway j hj)
  · exact forall_setClient (P := fun _ c => c.pc ≠ .read → c.toServer = [])
      (fun hne => absurd hread hne) fun j _ => h.silent j
  · exact forall_setClient
      (P := fun j c => c.pc = .read → c.toServer = message ∨ ServerPc.write k = .write j)
      (fun _ => .inr rfl)
      fun j _ hj => .inl ((h.letter j hj).resolve_right (by simp [hserver]))
  · refine forall_setClient (P := fun j c => ServerPc.write k = .write j → c.pc = .read)
      (fun _ => hread) fun j hj heq => ?_
    exact absurd (ServerPc.write.inj heq).symm hj

theorem Open.server_step (h : Open s) (hmain : s.serverMain program true = some t) :
    Open t ∨ Closed t := by
  cases hserver : s.server with
  | setup =>
    simp only [serverMain, hserver, if_true, Option.some.injEq] at hmain
    subst hmain
    have hsame : ∀ j, Here (s.serverGoto .accept) j ↔ Here s j := by
      simp [Here, serverGoto, hserver, ServerPc.accepted]
    exact .inl ⟨.inr (.inl rfl), h.unanswered, fun j hj => h.here j ((hsame j).mp hj),
      fun j hj => h.away j (mt (hsame j).mpr hj), h.silent,
      fun j hread => .inl ((h.letter j hread).resolve_right (by simp [hserver])),
      fun k hk => by cases hk⟩
  | accept =>
    simp only [serverMain, hserver, if_true] at hmain
    cases hline : s.line with
    | nil => simp [hline] at hmain
    | cons k line =>
      rw [hline] at hmain
      obtain rfl := Option.some.inj hmain
      have hsame : ∀ j, Here ({ s with line }.serverGoto (.read k)) j ↔ Here s j := by
        intro j
        simp [Here, serverGoto, hserver, ServerPc.accepted, hline, or_comm, eq_comm]
      exact .inl ⟨.inr (.inr ⟨k, rfl⟩), h.unanswered, fun j hj => h.here j ((hsame j).mp hj),
        fun j hj => h.away j (mt (hsame j).mpr hj), h.silent,
        fun j hread => .inl ((h.letter j hread).resolve_right (by simp [hserver])),
        fun k hk => by cases hk⟩
  | read k =>
    have hconn : (s.client k).Connected := h.here k (.inr (by rw [hserver]; rfl))
    have hover : (s.client k).ended = false := by
      rcases hconn with hpc | hpc <;> simp [Client.ended, hpc]
    simp only [serverMain, hserver, if_true, hover, Bool.false_eq_true, if_false] at hmain
    split_ifs at hmain with hsent
    obtain rfl := Option.some.inj hmain
    -- only a client that waits for the answer has sent something
    have hread : (s.client k).pc = .read := by
      by_contra hne
      exact hsent (h.silent k hne)
    exact .inl (h.read hserver hread _ _)
  | write k =>
    simp only [serverMain, hserver, if_true, Option.some.injEq] at hmain
    subst hmain
    obtain ⟨hnone, hout⟩ := h.unanswered k
    refine .inr ⟨rfl, k, .inl ?_, fun j hj => ?_⟩
    · rw [serverGoto, client_setClient_self, hnone]
      exact ⟨h.ready k hserver, rfl, hout⟩
    · rw [serverGoto, client_setClient_of_ne _ _ hj]
      exact h.unanswered j
  | done | failed | killed =>
    have hover := h.not_ended
    simp [State.ended, hserver] at hover

theorem shown_response (program : Program) : program.shown response = response := by
  cases program <;> decide

/-- After the end of the server a client prints what it has been sent, if anything. -/
theorem client_of_ended (hover : s.ended = true) (hmain : s.clientMain program j true = some t) :
    t.server = s.server ∧ (∀ i, i ≠ j → t.client i = s.client i) ∧
      ((s.client j).Unanswered → (t.client j).Unanswered) ∧
      ((s.client j).Answered → (t.client j).Answered) := by
  have hlistens : s.listens = false := by
    cases hserver : s.server <;> simp_all [State.ended, State.listens]
  cases hpc : (s.client j).pc with
  | socket =>
    simp only [clientMain, hpc, if_true, Option.some.injEq] at hmain
    subst hmain
    refine ⟨rfl, fun i hi => client_setClient_of_ne _ _ hi, fun h => ?_, fun h => ?_⟩
    · rwa [client_setClient_self]
    · simp [Answered, hpc] at h
  | connect =>
    simp only [clientMain, hpc, hlistens, Bool.false_eq_true, and_false, if_false,
      Option.some.injEq] at hmain
    subst hmain
    refine ⟨rfl, fun i hi => client_setClient_of_ne _ _ hi, fun h => ?_, fun h => ?_⟩
    · rwa [client_setClient_self]
    · simp [Answered, hpc] at h
  | write =>
    simp only [clientMain, hpc, hover, if_true, Option.some.injEq] at hmain
    subst hmain
    refine ⟨rfl, fun i hi => client_setClient_of_ne _ _ hi, fun h => ?_, fun h => ?_⟩
    · rwa [client_setClient_self]
    · simp [Answered, hpc] at h
  | read =>
    simp only [clientMain, hpc, hover, if_true] at hmain
    split_ifs at hmain with hsent
    · obtain rfl := Option.some.inj hmain
      refine ⟨rfl, fun i hi => client_setClient_of_ne _ _ hi, fun h => absurd h.1 hsent, ?_⟩
      rintro (⟨-, hresponse, hout⟩ | ⟨hdone, -⟩)
      · rw [client_setClient_self, hresponse, hout, shown_response]
        exact .inr ⟨rfl, rfl⟩
      · simp [hpc] at hdone
    · obtain rfl := Option.some.inj hmain
      refine ⟨rfl, fun i hi => client_setClient_of_ne _ _ hi, fun h => ?_, ?_⟩
      · rwa [client_setClient_self]
      · rintro (⟨-, hresponse, -⟩ | ⟨hdone, -⟩)
        · exact absurd (hresponse ▸ List.cons_ne_nil _ _) hsent
        · simp [hpc] at hdone
  | done | failed | killed => simp [clientMain, hpc] at hmain

theorem Closed.step (h : Closed s) (hok : a.ok = true) (hstep : step program s a = some t) :
    Closed t := by
  obtain ⟨hserver, k, hk, hothers⟩ := h
  cases a with
  | server ok => simp [Connections.step, serverMain, hserver] at hstep
  | client j ok =>
    obtain rfl : ok = true := hok
    have hover : s.ended = true := by simp [State.ended, hserver]
    obtain ⟨hsame, hother, hun, hans⟩ := client_of_ended hover hstep
    refine ⟨hsame.trans hserver, k, ?_, fun i hi => ?_⟩
    · by_cases hkj : k = j
      · subst hkj
        exact hans hk
      · rwa [hother k hkj]
    · by_cases hij : i = j
      · subst hij
        exact hun (hothers i hi)
      · rw [hother i hij]
        exact hothers i hi

/-! ### Where nobody can go on -/

/-- Before the answer somebody can, unless the server waits for a connection. -/
theorem Open.accept_of_blocked (h : Open s) (hserver : s.serverMain program true = none)
    (hclient : ∀ j, s.clientMain program j true = none) : s.server = .accept ∧ s.line = [] := by
  cases hpc : s.server with
  | setup => simp [serverMain, hpc] at hserver
  | accept =>
    cases hline : s.line with
    | nil => exact ⟨rfl, rfl⟩
    | cons k line => simp [serverMain, hpc, hline] at hserver
  | read k =>
    rcases h.here k (.inr (by rw [hpc]; rfl)) with hk | hk
    · have hnone := hclient k
      simp [clientMain, hk, h.not_ended] at hnone
    · -- what the client has sent can be read
      have hletter : (s.client k).toServer = message :=
        (h.letter k hk).resolve_right (by simp [hpc])
      have hne : message ≠ [] := by decide
      simp [serverMain, hpc, hletter, hne] at hserver
  | write k => simp [serverMain, hpc] at hserver
  | done | failed | killed =>
    have hover := h.not_ended
    simp [State.ended, hpc] at hover

/-- Nobody is in the line, and whoever has not tried to connect could. -/
theorem failed_of_accept (h : Open s) (hserver : s.server = .accept) (hline : s.line = [])
    (hclient : s.clientMain program j true = none) : (s.client j).pc = .failed := by
  have haway : ¬ Here s j := by simp [Here, hserver, hline, ServerPc.accepted]
  rcases h.away j haway with hpc | hpc | hpc
  · simp [clientMain, hpc] at hclient
  · simp [clientMain, hpc, hline, State.listens, hserver] at hclient
  · exact hpc

theorem ended_of_blocked (hover : s.ended = true) (hclient : s.clientMain program j true = none) :
    (s.client j).ended = true := by
  have hlistens : s.listens = false := by
    cases hserver : s.server <;> simp_all [State.ended, State.listens]
  cases hpc : (s.client j).pc with
  | socket => simp [clientMain, hpc] at hclient
  | connect => simp [clientMain, hpc, hlistens] at hclient
  | write => simp [clientMain, hpc, hover] at hclient
  | read =>
    simp only [clientMain, hpc, hover, if_true] at hclient
    split_ifs at hclient
  | done | failed | killed => simp [Client.ended, hpc]

/-! ### The main results -/

/-- In a run in which no call fails that could succeed, once nobody can go on: the server
still waits for a connection and every client had come too early, or the server is done,
exactly one client has printed the answer, and all the others have ended without. -/
theorem answered_once (hrun : run (step program) (start N) acts = some s)
    (hok : ∀ a ∈ acts, a.ok = true) (hend : ∀ a, a.ok = true → step program s a = none) :
    (s.server = .accept ∧ ∀ j, (s.client j).pc = .failed) ∨
    (s.server = .done ∧ (∀ j, (s.client j).ended = true) ∧
      ∃ k, (s.client k).out = [response] ∧ ∀ j, j ≠ k → (s.client j).out = []) := by
  have hstep : ∀ ⦃s a t⦄, Open (N := N) s ∨ Closed s → a.ok = true → step program s a = some t →
      Open t ∨ Closed t := by
    intro s a t h hok hstep
    rcases h with hopen | hclosed
    · cases a with
      | server ok =>
        obtain rfl : ok = true := hok
        exact hopen.server_step hstep
      | client j ok =>
        obtain rfl : ok = true := hok
        exact .inl (hopen.client_step hstep)
    · exact .inr (hclosed.step hok hstep)
  have halong : Along (step program) (fun _ a => a.ok = true) (start N) acts :=
    Along.of_forall fun a ha _ => hok a ha
  have hserverEnd : s.serverMain program true = none := hend (.server true) rfl
  have hclientEnd : ∀ j, s.clientMain program j true = none := fun j => hend (.client j true) rfl
  -- the end is before the answer or after it
  rcases halong.run hstep (.inl .start) hrun with hopen | hclosed
  · obtain ⟨hserver, hline⟩ := hopen.accept_of_blocked hserverEnd hclientEnd
    exact .inl ⟨hserver, fun j => failed_of_accept hopen hserver hline (hclientEnd j)⟩
  · obtain ⟨hserver, k, hk, hothers⟩ := hclosed
    have hall : ∀ j, (s.client j).ended = true := fun j =>
      ended_of_blocked (by simp [State.ended, hserver]) (hclientEnd j)
    refine .inr ⟨hserver, hall, k, ?_, fun j hj => (hothers j hj).2⟩
    rcases hk with ⟨hread, -⟩ | ⟨-, hout⟩
    · have hover := hall k
      simp [Client.ended, hread] at hover
    · exact hout

/-- The second client is connected too, and finds its connection reset. -/
theorem answered_once_two :
    ∃ s : State 2, run (step .tcpLocal) (start 2) ([.server true, .client 0 true, .client 0 true,
        .client 1 true, .client 1 true, .server true, .client 0 true, .server true,
        .client 1 true, .server true, .client 0 true, .client 1 true]) = some s ∧
      (s.client 0).out = [response] ∧ (s.client 1).pc = .failed ∧
      ∃ k, (s.client k).out = [response] ∧ ∀ j, j ≠ k → (s.client j).out = [] := by
  have hend : (run (step .tcpLocal) (start 2) ([.server true, .client 0 true, .client 0 true,
      .client 1 true, .client 1 true, .server true, .client 0 true, .server true,
      .client 1 true, .server true, .client 0 true, .client 1 true])).map
      (fun s => (s.server, s.client 0, s.client 1)) =
      some (.done, ⟨.done, [], [], [response]⟩, ⟨.failed, message, [], []⟩) := by decide
  obtain ⟨s, hrun, hs⟩ := Option.map_eq_some_iff.mp hend
  obtain ⟨hserver, hfirst, hsecond⟩ := by simpa only [Prod.mk.injEq] using hs
  have hover : ∀ j, (s.client j).pc = .done ∨ (s.client j).pc = .failed := by
    rw [Fin.forall_fin_two, hfirst, hsecond]
    exact ⟨.inl rfl, .inr rfl⟩
  have hnone : ∀ a, a.ok = true → step .tcpLocal s a = none := by
    intro a _
    cases a with
    | server ok => simp [step, serverMain, hserver]
    | client j ok => rcases hover j with hpc | hpc <;> simp [step, clientMain, hpc]
  rcases answered_once hrun (by decide) hnone with ⟨haccept, -⟩ | ⟨-, -, hone⟩
  · rw [hserver] at haccept
    cases haccept
  · exact ⟨s, hrun, by rw [hfirst], by rw [hsecond], hone⟩

/-! ### The length of a run -/

/-- How many statements a server has before it, and a client. -/
def ServerPc.left : ServerPc N → ℕ
  | .setup => 4
  | .accept => 3
  | .read _ => 2
  | .write _ => 1
  | .done | .failed | .killed => 0

def ClientPc.left : ClientPc → ℕ
  | .socket => 4
  | .connect => 3
  | .write => 2
  | .read => 1
  | .done | .failed | .killed => 0

def State.left (s : State N) : ℕ := s.server.left + ∑ j, (s.client j).pc.left

theorem left_hungUp (program : Program) (s : State N) (j : Fin N) :
    (s.hungUp program j).left = 0 := by
  unfold hungUp
  split
  · cases program <;> rfl
  · rfl

theorem pc_setClient (hpc : c.pc = (s.client k).pc) (j : Fin N) :
    ((s.setClient k c).client j).pc = (s.client j).pc := by
  by_cases hj : j = k
  · subst hj
    rw [client_setClient_self, hpc]
  · rw [client_setClient_of_ne _ _ hj]

theorem server_left (hmain : s.serverMain program ok = some t) :
    t.server.left < s.server.left ∧ ∀ j, (t.client j).pc = (s.client j).pc := by
  cases hserver : s.server with
  | setup =>
    simp only [serverMain, hserver, Option.some.injEq] at hmain
    subst hmain
    cases ok <;> exact ⟨by simp [serverGoto, ServerPc.left], fun _ => rfl⟩
  | accept =>
    simp only [serverMain, hserver] at hmain
    split_ifs at hmain
    · cases hline : s.line with
      | nil => simp [hline] at hmain
      | cons k line =>
        rw [hline] at hmain
        obtain rfl := Option.some.inj hmain
        exact ⟨Nat.lt_succ_self 2, fun _ => rfl⟩
    · obtain rfl := Option.some.inj hmain
      exact ⟨Nat.succ_pos 2, fun _ => rfl⟩
  | read k =>
    simp only [serverMain, hserver] at hmain
    split_ifs at hmain
    · obtain rfl := Option.some.inj hmain
      exact ⟨Nat.lt_succ_self 1, fun j => pc_setClient (by rfl) j⟩
    · obtain rfl := Option.some.inj hmain
      cases program <;> exact ⟨by simp [serverGoto, ServerPc.left, Program.onError], fun _ => rfl⟩
    · obtain rfl := Option.some.inj hmain
      cases program <;> exact ⟨by simp [serverGoto, ServerPc.left, Program.onError], fun _ => rfl⟩
  | write k =>
    simp only [serverMain, hserver] at hmain
    split_ifs at hmain
    · obtain rfl := Option.some.inj hmain
      exact ⟨Nat.one_pos, fun j => pc_setClient (by rfl) j⟩
    · obtain rfl := Option.some.inj hmain
      exact ⟨Nat.one_pos, fun _ => rfl⟩
    · obtain rfl := Option.some.inj hmain
      cases program <;> exact ⟨Nat.one_pos, fun _ => rfl⟩
  | done | failed | killed => simp [serverMain, hserver] at hmain

/-- A client that is put in another place moves forward. -/
theorem client_left_set {s' : State N} (hserver : s'.server = s.server)
    (hclient : s'.client = s.client) (hless : c.pc.left < (s.client j).pc.left) :
    (s'.setClient j c).server = s.server ∧
      (∀ i, i ≠ j → (s'.setClient j c).client i = s.client i) ∧
      ((s'.setClient j c).client j).pc.left < (s.client j).pc.left := by
  refine ⟨hserver, fun i hi => ?_, ?_⟩
  · rw [client_setClient_of_ne _ _ hi, hclient]
  · rwa [client_setClient_self]

theorem client_left (hmain : s.clientMain program j ok = some t) :
    t.server = s.server ∧ (∀ i, i ≠ j → t.client i = s.client i) ∧
      (t.client j).pc.left < (s.client j).pc.left := by
  cases hpc : (s.client j).pc with
  | socket =>
    simp only [clientMain, hpc, Option.some.injEq] at hmain
    subst hmain
    rw [← hpc]
    exact client_left_set rfl rfl (by cases ok <;> simp [hpc, goto, ClientPc.left])
  | connect =>
    simp only [clientMain, hpc] at hmain
    rw [← hpc]
    split_ifs at hmain
    · obtain rfl := Option.some.inj hmain
      exact client_left_set rfl rfl (by simp [hpc, goto, ClientPc.left])
    · obtain rfl := Option.some.inj hmain
      exact client_left_set rfl rfl (by simp [hpc, goto, ClientPc.left])
  | write =>
    simp only [clientMain, hpc] at hmain
    rw [← hpc]
    by_cases hover : s.ended = true
    · rw [if_pos hover, Option.some.injEq] at hmain
      subst hmain
      refine client_left_set rfl rfl ?_
      cases program <;> cases ok <;> simp [hpc, goto, ClientPc.left, Program.onError]
    · rw [if_neg hover] at hmain
      split_ifs at hmain
      · obtain rfl := Option.some.inj hmain
        exact client_left_set rfl rfl (by simp [hpc, ClientPc.left])
      · obtain rfl := Option.some.inj hmain
        refine client_left_set rfl rfl ?_
        cases program <;> simp [hpc, goto, ClientPc.left, Program.onError]
  | read =>
    simp only [clientMain, hpc] at hmain
    rw [← hpc]
    split_ifs at hmain
    · obtain rfl := Option.some.inj hmain
      exact client_left_set rfl rfl (by simp [hpc, ClientPc.left])
    · obtain rfl := Option.some.inj hmain
      refine client_left_set rfl rfl ?_
      rw [goto, left_hungUp, hpc]
      exact Nat.one_pos
    · obtain rfl := Option.some.inj hmain
      refine client_left_set rfl rfl ?_
      cases program <;> simp [hpc, goto, ClientPc.left, Program.onError]
  | done | failed | killed => simp [clientMain, hpc] at hmain

theorem left_lt (hstep : step program s a = some t) : t.left < s.left := by
  cases a with
  | server ok =>
    obtain ⟨hless, hpcs⟩ := server_left hstep
    rw [State.left, State.left, Finset.sum_congr rfl fun j _ => congrArg ClientPc.left (hpcs j)]
    exact Nat.add_lt_add_right hless _
  | client j ok =>
    obtain ⟨hserver, hothers, hless⟩ := client_left hstep
    rw [State.left, State.left, hserver]
    refine Nat.add_lt_add_left (Finset.sum_lt_sum (fun i _ => ?_) ⟨j, Finset.mem_univ j, hless⟩) _
    by_cases hi : i = j
    · subst hi
      exact hless.le
    · rw [hothers i hi]

/-- Whatever fails, no run has more steps than there are statements. -/
theorem length_le (hrun : run (step program) (start N) acts = some s) :
    acts.length ≤ 4 + N * 4 := by
  have htrue : Preserved (step (N := N) program) (fun _ => True) := fun _ _ _ _ _ => trivial
  have hle := htrue.size_add_length_le (fun _ _ _ _ hstep => left_lt hstep) trivial hrun
  have hstart : (start N).left = 4 + N * 4 := by
    simp [State.left, start, init, ServerPc.left, ClientPc.left]
  omega

end UnixLessons.Connections

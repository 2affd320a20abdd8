import Mathlib.Algebra.BigOperators.Group.Finset.Basic
import Mathlib.Algebra.Order.BigOperators.Group.Finset
import UnixLessons.DataTransfer.Group
import UnixLessons.Transition.Run

/-!
# Which clients get all ten answers?

Nobody repeats a datagram, so a client that misses one waits for ever. The clients of one
host cannot have the port at the same time, so no datagram comes to two of them.

## Main results

* `ten_answers_iff`: what a client must do, and what must happen to it, to end with ten answers
* `host_answers_le`: the clients of one host together print no more than ten
-/

namespace UnixLessons.DataTransfer

open Text Transition

variable {N : ℕ} {program : Program} {host : Fin N → ℕ} {s t : State N} {a : Action N}
  {acts : List (Action N)} {c c' : Client} {pc : ClientPc} {i j k : Fin N} {n : ℕ}
  {free ok : Bool}

/-- The answers that are printed, with their numbers. -/
def answers (received : ℕ) : List (ℕ × CString) :=
  (List.range received).map fun k => (k + 1, message)

theorem length_answers (received : ℕ) : (answers received).length = received := by
  simp [answers]

theorem answers_succ (k : ℕ) : answers (k + 1) = answers k ++ [(k + 1, message)] := by
  simp [answers, List.range_succ]

namespace Client

/-- How many datagrams have come to the socket. -/
def heard (c : Client) : ℕ := c.received + c.queue.length

structure Sound (n : ℕ) (c : Client) : Prop where
  queue : ∀ datagram ∈ c.queue, datagram = message
  out : c.out = answers c.received
  heard_le : c.heard ≤ n
  early : c.received = 0 ∨ c.pc = .loop ∨ c.pc = .leave ∨ c.pc = .done

/-- It has ended, or is about to, without its ten answers. -/
def Lost (c : Client) : Prop :=
  c.pc = .failed ∨ ((c.pc = .leave ∨ c.pc = .done) ∧ c.received < count)

/-- A failure makes no difference: it is only printed, or tried again, or no call is made. -/
def Tolerates (program : Program) (c : Client) : Prop :=
  c.pc = .leave ∨ (c.pc = .loop ∧ (program = .broadcast ∨ count ≤ c.received))

/-- Nothing more happens unless a datagram comes. -/
def Resting (c : Client) : Prop :=
  c.pc = .done ∨ c.pc = .failed ∨ (c.pc = .loop ∧ c.received < count ∧ c.queue = [])

/-! ### A statement of a client -/

/-- What a statement of a client does, whichever it is. -/
structure Moves (program : Program) (free ok : Bool) (n : ℕ) (c c' : Client) : Prop where
  sound : c'.Sound n
  host : c'.host = c.host
  heard : c'.heard = c.heard
  bound : c'.Bound → c.Bound ∨ free = true
  lost : c'.Lost ↔ c.Lost ∨ (ok = false ∧ ¬ c.Tolerates program)

theorem Sound.moves_goto (h : c.Sound n)
    (hearly : c.received = 0 ∨ pc = .loop ∨ pc = .leave ∨ pc = .done)
    (hbound : (c.goto pc).Bound → c.Bound ∨ free = true)
    (hlost : (c.goto pc).Lost ↔ c.Lost ∨ (ok = false ∧ ¬ c.Tolerates program)) :
    Moves program free ok n c (c.goto pc) :=
  ⟨⟨h.queue, h.out, h.heard_le, hearly⟩, rfl, rfl, hbound, hlost⟩

theorem Sound.early_of_lt (h : c.Sound n) (hpc : c.pc ≠ .loop ∧ c.pc ≠ .leave ∧ c.pc ≠ .done) :
    c.received = 0 := by
  obtain ⟨hloop, hleave, hdone⟩ := hpc
  exact h.early.resolve_right (by simp [hloop, hleave, hdone])

theorem receive_message (program : Program) (c : Client) :
    c.receive program message =
      { c with received := c.received + 1, out := c.out ++ [(c.received + 1, message)] } := rfl

/-- A round of the loop: a datagram is read, `recvfrom` fails, or the loop ends. -/
theorem Sound.main_loop (h : c.Sound n) (hpc : c.pc = .loop)
    (hmain : c.main program free ok = some c') : Moves program free ok n c c' := by
  have hbound : c.Bound := .inr (.inl hpc)
  simp only [Client.main, hpc] at hmain
  by_cases hcount : c.received < count
  · rw [if_pos hcount] at hmain
    cases ok with
    | false =>
      obtain rfl := Option.some.inj hmain
      cases program with
      | broadcast => exact ⟨h, rfl, rfl, .inl, by simp [Tolerates, hpc, giveUp]⟩
      | multicast =>
        refine h.moves_goto (.inr (.inr (.inl rfl))) (fun _ => .inl hbound) ?_
        simp [Lost, Tolerates, goto, hpc, hcount]
    | true =>
      simp only [if_true] at hmain
      cases hqueue : c.queue with
      | nil => simp [hqueue] at hmain
      | cons datagram rest =>
        rw [hqueue] at hmain
        have hall := h.queue
        rw [hqueue] at hall
        -- the server sends no empty datagram, which would be taken for an error
        obtain rfl := hall datagram List.mem_cons_self
        rw [Option.some.injEq, receive_message] at hmain
        subst hmain
        have hheard : c.received + 1 + rest.length = c.heard := by
          rw [heard, hqueue, List.length_cons]
          omega
        refine ⟨⟨fun x hx => hall x (List.mem_cons_of_mem _ hx), ?_, ?_, .inr (.inl rfl)⟩, rfl,
          hheard, fun _ => .inl hbound, by simp [Lost, hpc]⟩
        · rw [answers_succ, ← h.out]
        · exact hheard.trans_le h.heard_le
  · rw [if_neg hcount] at hmain
    obtain rfl := Option.some.inj hmain
    refine h.moves_goto ?_ (fun _ => .inl hbound) ?_
    · cases program <;> simp
    · cases program <;> simp [Lost, Tolerates, goto, hpc, hcount, Nat.le_of_not_lt hcount]

theorem Sound.main (h : c.Sound n) (hmain : c.main program free ok = some c') :
    Moves program free ok n c c' := by
  cases hpc : c.pc with
  | socket =>
    have hearly := h.early_of_lt (by simp [hpc])
    simp only [Client.main, hpc, Option.some.injEq] at hmain
    subst hmain
    refine h.moves_goto (.inl hearly) ?_ ?_
    · cases ok <;> simp [Bound, goto]
    · cases ok <;> simp [Lost, Tolerates, goto, hpc]
  | bind =>
    have hearly := h.early_of_lt (by simp [hpc])
    cases ok with
    | false =>
      simp only [Client.main, hpc, Bool.false_eq_true, if_false, Option.some.injEq] at hmain
      subst hmain
      refine h.moves_goto (.inl hearly) (by simp [Bound, goto]) ?_
      simp [Lost, Tolerates, goto, hpc]
    | true =>
      simp only [Client.main, hpc, if_true] at hmain
      split_ifs at hmain with hfree
      obtain rfl := Option.some.inj hmain
      refine h.moves_goto (.inl hearly) (fun _ => .inr hfree) ?_
      cases program <;> simp [Lost, goto, hpc]
  | join =>
    have hearly := h.early_of_lt (by simp [hpc])
    simp only [Client.main, hpc, Option.some.injEq] at hmain
    subst hmain
    refine h.moves_goto (.inl hearly) (fun _ => .inl (.inl hpc)) ?_
    cases ok <;> simp [Lost, Tolerates, goto, hpc]
  | loop => exact h.main_loop hpc hmain
  | leave =>
    simp only [Client.main, hpc, Option.some.injEq] at hmain
    subst hmain
    refine h.moves_goto (.inr (.inr (.inr rfl))) (fun _ => .inl (.inr (.inr hpc))) ?_
    simp [Lost, Tolerates, goto, hpc]
  | done | failed => simp [Client.main, hpc] at hmain

/-! ### A datagram -/

/-- A datagram is sent, and comes to the client or not. -/
def reach (came : Bool) (c : Client) : Client := if came then c.deliver else c

@[simp] theorem reach_host (came : Bool) (c : Client) : (c.reach came).host = c.host := by
  unfold reach deliver
  split_ifs <;> rfl

@[simp] theorem reach_pc (came : Bool) (c : Client) : (c.reach came).pc = c.pc := by
  unfold reach deliver
  split_ifs <;> rfl

@[simp] theorem reach_received (came : Bool) (c : Client) :
    (c.reach came).received = c.received := by
  unfold reach deliver
  split_ifs <;> rfl

@[simp] theorem reach_out (came : Bool) (c : Client) : (c.reach came).out = c.out := by
  unfold reach deliver
  split_ifs <;> rfl

@[simp] theorem reach_bound (came : Bool) (c : Client) : (c.reach came).Bound ↔ c.Bound := by
  rw [Bound, Bound, reach_pc]

theorem reach_heard (came : Bool) (c : Client) :
    (c.reach came).heard = c.heard + if came = true ∧ c.Bound then 1 else 0 := by
  unfold reach deliver
  by_cases hcame : came = true
  · by_cases hbound : c.Bound
    · simp [heard, hcame, hbound, Nat.add_assoc]
    · simp [heard, hcame, hbound]
  · simp [heard, hcame]

theorem Sound.reach (h : c.Sound n) (came : Bool) : (c.reach came).Sound (n + 1) where
  queue := by
    unfold Client.reach deliver
    split_ifs
    · simpa [or_imp, forall_and] using h.queue
    · exact h.queue
    · exact h.queue
  out := by rw [reach_out, reach_received, h.out]
  heard_le := by
    have hle := h.heard_le
    rw [reach_heard]
    split_ifs <;> omega
  early := by simpa using h.early

end Client

open Client

/-! ### The invariant -/

/-- How many datagrams the server has tried to send. -/
def ServerPc.sent : ServerPc → ℕ
  | .setup | .failed => 0
  | .loop i => i
  | .done => count

/-- On one host at most one client has the port, and no datagram comes to two. -/
structure Sound (host : Fin N → ℕ) (s : State N) : Prop where
  sent_le : s.server.sent ≤ count
  client : ∀ j, (s.client j).Sound s.server.sent
  host_eq : ∀ j, (s.client j).host = host j
  apart : ∀ j k, host j = host k → (s.client j).Bound → (s.client k).Bound → j = k
  shared : ∀ h, ∑ j with host j = h, (s.client j).heard ≤ s.server.sent

theorem Sound.start (host : Fin N → ℕ) : Sound host (start host) where
  sent_le := Nat.zero_le _
  client _ := ⟨by simp [DataTransfer.start, init], rfl, Nat.le_refl _, .inl rfl⟩
  host_eq _ := rfl
  apart _ _ _ hj := by simp [DataTransfer.start, init, Bound] at hj
  shared h := (Finset.sum_eq_zero fun _ _ => rfl).le

/-- A statement of the server sends at most one datagram. -/
theorem serverMain_cases {reached : Option (Finset (Fin N))} (h : s.server.sent ≤ count)
    (hmain : s.serverMain reached = some t) :
    (∃ i, i < count ∧ s.server = .loop i ∧ t.server = .loop (i + 1) ∧
      ∀ j, t.client j = (s.client j).reach (decide (j ∈ reached.getD ∅))) ∨
    ((∀ i, i < count → s.server ≠ .loop i) ∧ t.server.sent = s.server.sent ∧
      t.client = s.client) := by
  cases hserver : s.server with
  | setup =>
    simp only [State.serverMain, hserver, Option.some.injEq] at hmain
    subst hmain
    refine .inr ⟨by simp, ?_, rfl⟩
    cases reached <;> rfl
  | loop i =>
    simp only [State.serverMain, hserver] at hmain
    rw [hserver, ServerPc.sent] at h
    by_cases hi : i < count
    · rw [if_pos hi] at hmain
      obtain rfl := Option.some.inj hmain
      refine .inl ⟨i, hi, rfl, rfl, fun j => ?_⟩
      simp [State.serverGoto, State.deliver, Client.reach]
    · rw [if_neg hi] at hmain
      obtain rfl := Option.some.inj hmain
      refine .inr ⟨fun i' hi' heq => ?_, Nat.le_antisymm (Nat.le_of_not_lt hi) h, rfl⟩
      obtain rfl := ServerPc.loop.inj heq
      exact hi hi'
  | done | failed => simp [State.serverMain, hserver] at hmain

theorem Sound.client_step (h : Sound host s)
    (hmain : (s.client i).main program (decide (s.PortFree i)) ok = some c) :
    Sound host { s with client := Function.update s.client i c } := by
  have hmoves := (h.client i).main hmain
  -- whoever has the port is the one who moves, or had it before
  have hbound : ∀ k, k ≠ i → host i = host k → c.Bound → ¬ (s.client k).Bound := by
    intro k hk hhost hc hbound
    rcases hmoves.bound hc with hbefore | hfree
    · exact hk (h.apart i k hhost hbefore hbound).symm
    · refine of_decide_eq_true hfree k ?_ hbound
      rw [h.host_eq, h.host_eq, hhost]
  have hheard : ∀ j, (Function.update s.client i c j).heard = (s.client j).heard :=
    (Function.forall_update_iff s.client fun j c => c.heard = (s.client j).heard).mpr
      ⟨hmoves.heard, fun _ _ => rfl⟩
  refine ⟨h.sent_le, ?_, ?_, fun j k hhost hj hk => ?_, fun h' => ?_⟩
  · exact (Function.forall_update_iff s.client fun _ c => c.Sound s.server.sent).mpr
      ⟨hmoves.sound, fun j _ => h.client j⟩
  · exact (Function.forall_update_iff s.client fun j c => c.host = host j).mpr
      ⟨hmoves.host.trans (h.host_eq i), fun j _ => h.host_eq j⟩
  · by_contra hne
    by_cases hji : j = i
    · subst hji
      have hki : k ≠ j := fun heq => hne heq.symm
      simp only [Function.update_self, Function.update_of_ne hki] at hj hk
      exact hbound k hki hhost hj hk
    · by_cases hki : k = i
      · subst hki
        simp only [Function.update_self, Function.update_of_ne hji] at hj hk
        exact hbound j hji hhost.symm hk hj
      · simp only [Function.update_of_ne hji, Function.update_of_ne hki] at hj hk
        exact hne (h.apart j k hhost hj hk)
  · rw [Finset.sum_congr rfl fun j _ => hheard j]
    exact h.shared h'

/-- At most one client of a host hears a datagram. -/
theorem Sound.shared_reach (h : Sound host s) (came : Fin N → Bool) (h' : ℕ) :
    ∑ j with host j = h', ((s.client j).reach (came j)).heard ≤ s.server.sent + 1 := by
  have hone : ∑ j with host j = h', (if came j = true ∧ (s.client j).Bound then 1 else 0) ≤ 1 := by
    rw [Finset.sum_boole, Nat.cast_id, Finset.card_le_one]
    intro j hj k hk
    simp only [Finset.mem_filter, Finset.mem_univ, true_and] at hj hk
    exact h.apart j k (hj.1.trans hk.1.symm) hj.2.2 hk.2.2
  rw [Finset.sum_congr rfl fun j _ => reach_heard (came j) (s.client j), Finset.sum_add_distrib]
  exact Nat.add_le_add (h.shared h') hone

theorem Sound.preserved : Preserved (step (N := N) program) (Sound host) := by
  intro s a t h hstep
  cases a with
  | server reached =>
    rcases serverMain_cases h.sent_le hstep with ⟨i, hi, hs, ht, hclient⟩ | ⟨-, hsent, hclient⟩
    · have hsent : t.server.sent = s.server.sent + 1 := by rw [hs, ht]; rfl
      refine ⟨by rw [ht]; exact hi, fun j => ?_, fun j => ?_, fun j k hhost hj hk => ?_,
        fun h' => ?_⟩
      · rw [hsent, hclient]
        exact (h.client j).reach _
      · rw [hclient, reach_host, h.host_eq]
      · rw [hclient, reach_bound] at hj hk
        exact h.apart j k hhost hj hk
      · rw [hsent, Finset.sum_congr rfl fun j _ => congrArg heard (hclient j)]
        exact h.shared_reach _ h'
    · exact ⟨hsent ▸ h.sent_le, hsent ▸ hclient ▸ h.client, hclient ▸ h.host_eq,
        hclient ▸ h.apart, hsent ▸ hclient ▸ h.shared⟩
  | client i ok =>
    obtain ⟨c, hmain, rfl⟩ := Option.map_eq_some_iff.mp hstep
    exact h.client_step hmain

/-! ### The main results -/

/-- The step does not make the client miss a datagram: if one is sent it reaches the client,
which is bound by then, and no call fails that the client cannot do without. -/
def Follows (program : Program) (j : Fin N) (s : State N) : Action N → Prop
  | .server reached =>
    (∃ i, i < count ∧ s.server = .loop i) → j ∈ reached.getD ∅ ∧ (s.client j).Bound
  | .client k ok => k = j → ok = true ∨ (s.client j).Tolerates program

/-- The client has heard all that was sent, and still listens or has its answers. -/
def UpToDate (j : Fin N) (s : State N) : Prop :=
  (s.client j).heard = s.server.sent ∧ ¬ (s.client j).Lost

theorem upToDate_step (h : Sound host s) (hstep : step program s a = some t) :
    UpToDate j t ↔ UpToDate j s ∧ Follows program j s a := by
  cases a with
  | server reached =>
    rcases serverMain_cases h.sent_le hstep with ⟨i, hi, hs, ht, hclient⟩ | ⟨hnone, hsent, hclient⟩
    · have hle := (h.client j).heard_le
      have hsend : Follows program j s (.server reached) ↔
          j ∈ reached.getD ∅ ∧ (s.client j).Bound :=
        ⟨fun hfollows => hfollows ⟨i, hi, hs⟩, fun hboth _ => hboth⟩
      rw [hs, ServerPc.sent] at hle
      rw [hsend, UpToDate, UpToDate, hclient, reach_heard, hs, ht, Lost, reach_pc, reach_received,
        ← Lost]
      simp only [ServerPc.sent, decide_eq_true_eq]
      -- a datagram that is missed can never be made up for
      split_ifs with hcame
      · simp [hcame]
      · constructor
        · rintro ⟨hheard, -⟩
          omega
        · rintro ⟨-, hboth⟩
          exact absurd hboth hcame
    · have hfollows : Follows program j s (.server reached) :=
        fun ⟨i, hi, hs⟩ => absurd hs (hnone i hi)
      rw [UpToDate, UpToDate, hsent, hclient]
      exact (and_iff_left hfollows).symm
  | client i ok =>
    obtain ⟨c, hmain, rfl⟩ := Option.map_eq_some_iff.mp hstep
    by_cases hj : j = i
    · subst hj
      have hmoves := (h.client j).main hmain
      simp only [UpToDate, Function.update_self, hmoves.heard, hmoves.lost, Follows, true_imp_iff]
      cases ok <;> simp [not_or, and_assoc]
    · have hother : i ≠ j := fun heq => hj heq.symm
      simp [UpToDate, Follows, hj, hother]

/-- In every run of a server and any number of clients, once the server is over and a client
has nothing more to do: it has printed the answer as often as it counts, with the right
numbers, and these are ten exactly if the server was not stopped before, each of its
datagrams came to the client when it was already bound, and no call of the client failed
without being made good. -/
theorem ten_answers_iff (hrun : run (step program) (start host) acts = some s)
    (hserver : s.server = .done ∨ s.server = .failed) (hrest : (s.client j).Resting) :
    (s.client j).out = answers (s.client j).received ∧
      ((s.client j).received = count ↔
        s.server = .done ∧ Along (step program) (Follows program j) (start host) acts) := by
  have hsound := Sound.preserved.run (Sound.start host) hrun
  have hstep : ∀ ⦃s a t⦄, Sound host s → step program s a = some t →
      Sound host t ∧ (UpToDate j t ↔ UpToDate j s ∧ Follows program j s a) :=
    fun s a t h hstep => ⟨Sound.preserved h hstep, upToDate_step h hstep⟩
  have hstart : UpToDate j (start host) := ⟨rfl, by simp [start, init, Lost]⟩
  have halong := (along_iff hstep (Sound.start host) hrun).trans (and_iff_right hstart)
  have hle := (hsound.client j).heard_le
  refine ⟨(hsound.client j).out, ?_⟩
  rw [← halong, UpToDate]
  rw [heard] at hle ⊢
  rcases hserver with hdone | hfailed
  · rw [hdone, ServerPc.sent] at hle ⊢
    simp only [true_and]
    constructor
    · -- with ten answers it has heard all ten datagrams, and nothing is left in its socket
      intro hten
      refine ⟨by omega, ?_⟩
      rintro (hpc | ⟨-, hlt⟩)
      · have hzero := (hsound.client j).early_of_lt (by simp [hpc])
        rw [hten] at hzero
        cases hzero
      · omega
    · -- a client that is up to date and rests has not stopped in the loop
      rintro ⟨hheard, hlost⟩
      rcases hrest with hpc | hpc | ⟨-, hlt, hqueue⟩
      · have hge : ¬ (s.client j).received < count := fun hlt => hlost (.inr ⟨.inr hpc, hlt⟩)
        omega
      · exact absurd (.inl hpc) hlost
      · rw [hqueue, List.length_nil] at hheard
        omega
  · -- a server that has failed has sent nothing
    rw [hfailed, ServerPc.sent] at hle
    simp only [hfailed, reduceCtorEq, false_and, iff_false]
    have hpos : 0 < count := by decide
    omega

/-- The second client has bound its socket after the first of the ten datagrams. -/
def oneLate (first second : Fin 2) : List (Action 2) :=
  .server (some ∅) :: List.replicate 3 (.client first true) ++
    .server (some {first}) :: List.replicate 3 (.client second true) ++
    List.replicate 9 (.server (some Finset.univ)) ++ List.replicate 12 (.client first true) ++
    List.replicate 9 (.client second true) ++ [.server none]

theorem ten_answers_iff_oneLate :
    ∃ s, run (step .multicast) (start Fin.val) (oneLate 0 1) = some s ∧
      s.client 0 = ⟨0, .done, [], 10, answers 10⟩ ∧ s.client 1 = ⟨1, .loop, [], 9, answers 9⟩ ∧
      Along (step .multicast) (Follows .multicast 0) (start Fin.val) (oneLate 0 1) ∧
      ¬ Along (step .multicast) (Follows .multicast 1) (start Fin.val) (oneLate 0 1) := by
  have hend : (run (step .multicast) (start Fin.val) (oneLate 0 1)).map
      (fun s => (s.server, s.client 0, s.client 1)) =
      some (.done, ⟨0, .done, [], 10, answers 10⟩, ⟨1, .loop, [], 9, answers 9⟩) := by decide
  obtain ⟨s, hrun, hs⟩ := Option.map_eq_some_iff.mp hend
  obtain ⟨hserver, hfirst, hsecond⟩ := by simpa only [Prod.mk.injEq] using hs
  have hleft : (s.client 0).Resting := .inl (by rw [hfirst])
  have hwaits : (s.client 1).Resting :=
    .inr (.inr (by rw [hsecond]; exact ⟨rfl, by decide, rfl⟩))
  have hall := (ten_answers_iff hrun (.inl hserver) hleft).2.mp (by rw [hfirst]; rfl)
  refine ⟨s, hrun, hfirst, hsecond, hall.2, fun halong => ?_⟩
  have hten := (ten_answers_iff hrun (.inl hserver) hwaits).2.mpr ⟨hserver, halong⟩
  rw [hsecond] at hten
  exact absurd hten (by decide)

/-- The clients of one host together print no more than ten answers, in any order of steps, if
the network does not duplicate datagrams. -/
theorem host_answers_le (hrun : run (step program) (start host) acts = some s) (h : ℕ) :
    ∑ j with host j = h, (s.client j).out.length ≤ count := by
  have hsound := Sound.preserved.run (Sound.start host) hrun
  have hprinted : ∀ j, (s.client j).out.length = (s.client j).received := fun j => by
    rw [(hsound.client j).out, length_answers]
  calc ∑ j with host j = h, (s.client j).out.length
      ≤ ∑ j with host j = h, (s.client j).heard :=
        Finset.sum_le_sum fun j _ => (hprinted j).trans_le (Nat.le_add_right _ _)
    _ ≤ s.server.sent := hsound.shared h
    _ ≤ count := hsound.sent_le

/-- One client gives up after four answers, and another one on its host takes the port. -/
def oneAfterAnother (first second : Fin 2) : List (Action 2) :=
  .server (some ∅) :: List.replicate 3 (.client first true) ++
    List.replicate 4 (.server (some {first})) ++ List.replicate 4 (.client first true) ++
    [.client first false, .client first true] ++ List.replicate 3 (.client second true) ++
    List.replicate 6 (.server (some Finset.univ)) ++ List.replicate 6 (.client second true)

theorem host_answers_le_oneAfterAnother :
    ∃ s, run (step .multicast) (start fun _ => 7) (oneAfterAnother 0 1) = some s ∧
      (s.client 0).out = answers 4 ∧ (s.client 1).out = answers 6 ∧
      ∑ j with (fun _ : Fin 2 => 7) j = 7, (s.client j).out.length ≤ count := by
  have hend : (run (step .multicast) (start fun _ => 7) (oneAfterAnother 0 1)).map
      (fun s => (s.client 0, s.client 1)) =
      some (⟨7, .done, [], 4, answers 4⟩, ⟨7, .loop, [], 6, answers 6⟩) := by decide
  obtain ⟨s, hrun, hs⟩ := Option.map_eq_some_iff.mp hend
  obtain ⟨hfirst, hsecond⟩ := by simpa only [Prod.mk.injEq] using hs
  exact ⟨s, hrun, by rw [hfirst], by rw [hsecond], host_answers_le hrun 7⟩

end UnixLessons.DataTransfer

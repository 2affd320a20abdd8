import UnixLessons.OneShot.Moves

/-!
# Does the process end after everyone was served?

The main thread waits for the third service thread only and then reports that all
three clients were served. The first two threads run in the background, and what
they have not done when the process ends is not done at all. All is well in the
runs in which the third thread is the last to end.

## Main results

* `Counted`: the threads and the endpoints sent, by the place the main thread is at
* `allServed_of_ordered`: when everyone is served, and what may happen otherwise
-/

namespace UnixLessons.OneShot

open Text Transition
open ServicePool (endpoint parseEndpoint)

variable {s t u : Server} {a : Action} {c k l : ℕ} {th : Service} {ok : Bool}

/-- When the main thread has come back from `pthread_join` and reports that all
clients were served, the threads whose endpoints were sent have ended. -/
def AllServed (s : Server) : Prop :=
  s.mainAt = .report ∨ s.mainAt = .exited → ∀ h ∈ s.handed, s.Ended h.thread

/-- The third thread ends after the first two. -/
def Ordered (s : Server) : Action → Prop
  | .service k ok =>
    k = 2 → s.threads[2]?.any (·.pc.ends ok) = true → s.Ended 0 ∧ s.Ended 1
  | _ => True

instance (s : Server) : ∀ a, Decidable (Ordered s a)
  | .service _ _ => inferInstanceAs (Decidable (_ → _ → _))
  | .main | .create _ | .abortBacklog | .client _ | .vanish _ => inferInstanceAs (Decidable True)

/-! ### Counting clients -/

/-- The thread that was created for the client at hand. -/
def MainPc.thread : MainPc → Option ℕ
  | .send _ k | .close _ k | .keep k => some k
  | _ => none

/-- A thread was created for a client that has not been counted yet. -/
def MainPc.uncounted : MainPc → ℕ
  | .send _ _ | .close _ _ | .keep _ | .count => 1
  | _ => 0

/-- The endpoint of that thread was sent. -/
def MainPc.sent : MainPc → ℕ
  | .close _ _ | .keep _ | .count => 1
  | _ => 0

/-- The loop of the main thread is over. -/
def MainPc.over : MainPc → Bool
  | .join | .report | .exited => true
  | _ => false

/-- How many threads and endpoints there are, and which thread is joined. -/
structure Counted (s : Server) : Prop where
  length : s.threads.length = s.clientsServed + s.mainAt.uncounted
  served : s.clientsServed = maxClients ∧ s.mainAt.over = true ∨
    s.clientsServed < maxClients ∧ s.mainAt.over = false
  current : ∀ k, s.mainAt.thread = some k → k = s.clientsServed
  third : s.mainAt = .count ∧ s.clientsServed = 2 ∨ s.mainAt.over = true →
    s.thirdThread = some 2
  handed : s.handed.map Handover.thread = List.range (s.clientsServed + s.mainAt.sent)
  joined : s.mainAt = .report ∨ s.mainAt = .exited → s.Ended 2

namespace Counted

theorem start : Counted start := by
  constructor <;> simp [OneShot.start, MainPc.uncounted, MainPc.over, MainPc.thread, MainPc.sent,
    maxClients]

/-- Nothing that is counted changes. -/
theorem frame (h : Counted s) (hmain : t.mainAt = s.mainAt)
    (hserved : t.clientsServed = s.clientsServed) (hthird : t.thirdThread = s.thirdThread)
    (hhanded : t.handed = s.handed) (hlength : t.threads.length = s.threads.length)
    (hended : ∀ k, s.Ended k → t.Ended k) : Counted t where
  length := by rw [hlength, hserved, hmain]; exact h.length
  served := by rw [hserved, hmain]; exact h.served
  current := by rw [hserved, hmain]; exact h.current
  third := by rw [hserved, hmain, hthird]; exact h.third
  handed := by rw [hhanded, hserved, hmain]; exact h.handed
  joined := by rw [hmain]; exact fun hat => hended 2 (h.joined hat)

/-- What is counted is the same for two places of the main thread. -/
theorem mainGoto (h : Counted s) {pc : MainPc} (huncounted : pc.uncounted = s.mainAt.uncounted)
    (hover : pc.over = s.mainAt.over) (hthread : ∀ k, pc.thread = some k → s.mainAt.thread = some k)
    (hthird : pc ≠ .count) (hsent : pc.sent = s.mainAt.sent)
    (hjoined : pc = .report → s.Ended 2) (hexited : pc = .exited → s.mainAt = .report) :
    Counted (s.mainGoto pc) where
  length := h.length.trans (by rw [← huncounted]; rfl)
  served := by
    have hserved := h.served
    rwa [← hover] at hserved
  current k hk := h.current k (hthread k hk)
  third hat := h.third (.inr (hat.elim (fun hcount => absurd hcount.1 hthird)
    fun hat => hover.symm.trans hat))
  handed := h.handed.trans (by rw [← hsent]; rfl)
  joined hat := hat.elim hjoined fun hat => h.joined (.inl (hexited hat))

/-- The main thread moves on. -/
theorem mainStep (h : Counted s) (hstep : mainStep s = some t) : Counted t := by
  unfold OneShot.mainStep at hstep
  cases hmain : s.mainAt with
  | accept =>
    simp only [hmain] at hstep
    split at hstep
    · cases hstep
    · rename_i c backlog _
      cases hstep
      have hmoved : Counted (s.mainGoto (.create c)) := by
        apply h.mainGoto <;> simp [hmain, MainPc.uncounted, MainPc.over, MainPc.thread, MainPc.sent]
      exact hmoved.frame rfl rfl rfl rfl rfl fun _ hended => hended
  | create c => simp [hmain] at hstep
  | send c k =>
    simp only [hmain] at hstep
    obtain ⟨th, hth, rfl⟩ := Option.map_eq_some_iff.mp hstep
    obtain ⟨hlength, hserved, hcurrent, -, hhanded, -⟩ := h
    rw [hmain] at hlength hserved hcurrent hhanded
    refine ⟨hlength, hserved, hcurrent, by simp [MainPc.over], ?_, by simp⟩
    -- The endpoint of the thread that was created last is sent now.
    obtain rfl : k = s.clientsServed := hcurrent k rfl
    simp [hhanded, Server.setClient, MainPc.sent, List.range_succ]
  | close c k =>
    simp only [hmain, Option.some.injEq] at hstep
    subst hstep
    have hmoved : Counted (s.mainGoto (.keep k)) := by
      apply h.mainGoto <;> simp [hmain, MainPc.uncounted, MainPc.over, MainPc.thread, MainPc.sent]
    exact hmoved.frame rfl rfl rfl rfl rfl fun _ hended => hended
  | keep k =>
    obtain ⟨hlength, hserved, hcurrent, -, hhanded, -⟩ := h
    rw [hmain] at hlength hserved hcurrent hhanded
    simp only [hmain] at hstep
    split at hstep
    · rename_i htwo
      cases hstep
      refine ⟨hlength, hserved, by simp [MainPc.thread], fun _ => ?_, hhanded, by simp⟩
      -- the thread kept for the join is the one that was created last
      have hk : k = s.clientsServed := hcurrent k rfl
      rw [hk, htwo]
    · rename_i htwo
      obtain ⟨th, hth, rfl⟩ := Option.map_eq_some_iff.mp hstep
      refine ⟨(List.length_set ..).trans hlength, hserved, by simp [Server.mainGoto, MainPc.thread],
        fun hat => ?_, hhanded, by simp [Server.mainGoto]⟩
      rcases hat with ⟨-, hcount⟩ | hover
      · exact absurd hcount htwo
      · cases hover
  | count =>
    simp only [hmain, Option.some.injEq] at hstep
    subst hstep
    obtain ⟨hlength, hserved, -, hthird, hhanded, -⟩ := h
    rw [hmain] at hlength hserved hthird hhanded
    have hlt : s.clientsServed < 3 := by
      rcases hserved with ⟨-, hover⟩ | ⟨hlt, -⟩
      · cases hover
      · exact hlt
    by_cases hmore : s.clientsServed + 1 < maxClients
    · rw [if_pos hmore]
      refine ⟨hlength, .inr ⟨hmore, rfl⟩, by simp [MainPc.thread], by simp [MainPc.over], hhanded,
        by simp⟩
    · -- The third client was the last.
      have htwo : s.clientsServed = 2 := by
        unfold maxClients at hmore
        omega
      rw [if_neg hmore]
      refine ⟨hlength, .inl ⟨congrArg (· + 1) htwo, rfl⟩, by simp [MainPc.thread], fun _ => ?_,
        hhanded, by simp⟩
      exact hthird (.inl ⟨rfl, htwo⟩)
  | join =>
    simp only [hmain] at hstep
    obtain ⟨k, hk, hjoin⟩ := Option.bind_eq_some_iff.mp hstep
    split at hjoin
    · rename_i hended
      cases hjoin
      -- only the third thread is joined, and the join returns when it has ended
      have htwo : k = 2 := by
        have hthird := h.third (.inr (by rw [hmain]; rfl))
        exact Option.some.inj (hk.symm.trans hthird)
      apply h.mainGoto <;>
        simp [hmain, MainPc.uncounted, MainPc.over, MainPc.thread, MainPc.sent, htwo ▸ hended]
    · cases hjoin
  | report =>
    simp only [hmain, Option.some.injEq] at hstep
    subst hstep
    apply h.mainGoto <;> simp [hmain, MainPc.uncounted, MainPc.over, MainPc.thread, MainPc.sent]
  | exited => simp [hmain] at hstep

/-- A thread is created for the client at hand, or not. -/
theorem create (h : Counted s) (hstep : create s ok = some t) : Counted t := by
  unfold OneShot.create at hstep
  split at hstep
  · rename_i c hmain
    obtain ⟨hlength, hserved, hcurrent, -, hhanded, -⟩ := h
    rw [hmain] at hlength hserved hcurrent hhanded
    split at hstep
    · dsimp only at hstep
      split at hstep
      · cases hstep
        -- the new thread is counted only at the end of the loop
        refine ⟨?_, hserved, ?_, by simp [MainPc.over], hhanded, by simp⟩
        · simpa [MainPc.uncounted] using hlength
        · rintro k hk
          exact (Option.some.inj hk).symm.trans hlength
      · cases hstep
        exact ⟨hlength, hserved, by simp [Server.mainGoto, MainPc.thread],
          by simp [Server.mainGoto, MainPc.over], hhanded, by simp [Server.mainGoto]⟩
    · cases hstep
  · cases hstep

theorem preserved : Preserved step Counted := by
  intro s a t h hstep
  cases a with
  | main => exact h.mainStep hstep
  | create ok => exact h.create hstep
  | abortBacklog =>
    simp only [step, abortBacklog] at hstep
    split at hstep
    · cases hstep
      exact h.frame rfl rfl rfl rfl rfl fun _ hended => hended
    · cases hstep
  | service k ok =>
    obtain ⟨th, th', hth, hmove⟩ := step_service hstep
    have hended := hmove.ended_iff hth
    have hlength : t.threads.length = s.threads.length := by rw [hmove.eq]; simp
    apply h.frame _ _ _ _ hlength fun l hl => (hended l).mpr (.inl hl) <;> rw [hmove.eq]
  | client c =>
    obtain ⟨-, hmove⟩ := step_client hstep
    have hended : ∀ l, s.Ended l → t.Ended l := fun l => (hmove.ended_iff l).mpr
    cases hmove with
    | connects => exact h.frame rfl rfl rfl rfl (List.length_set ..) hended
    | _ => exact h.frame rfl rfl rfl rfl rfl hended
  | vanish c =>
    cases hstep
    exact h.frame rfl rfl rfl rfl rfl fun _ hended => hended

theorem run {acts : List Action} (hrun : run step OneShot.start acts = some s) : Counted s :=
  preserved.run start hrun

/-- The endpoints of the first three threads were sent, and no others. -/
theorem handed_of_over (h : Counted s) (hover : s.mainAt.over = true) :
    s.handed.map Handover.thread = [0, 1, 2] := by
  have hserved : s.clientsServed = 3 := by
    rcases h.served with ⟨hserved, -⟩ | ⟨-, hnot⟩
    · exact hserved
    · rw [hover] at hnot
      cases hnot
  have hsent : s.mainAt.sent = 0 := by
    cases hmain : s.mainAt <;> simp [hmain, MainPc.over, MainPc.sent] at hover ⊢
  rw [h.handed, hserved, hsent]
  rfl

/-- Everyone is served when the report comes exactly if the first two threads have
ended then. -/
theorem allServed_iff (h : Counted s) :
    AllServed s ↔ (s.mainAt = .report ∨ s.mainAt = .exited → s.Ended 0 ∧ s.Ended 1) := by
  constructor
  · intro hall hat
    have hover : s.mainAt.over = true := by rcases hat with hat | hat <;> rw [hat] <;> rfl
    -- the three endpoints that were sent are those of the threads 0, 1 and 2
    have hthread : ∀ k ∈ [0, 1, 2], s.Ended k := by
      rw [← h.handed_of_over hover]
      intro k hk
      obtain ⟨x, hx, rfl⟩ := List.mem_map.mp hk
      exact hall hat x hx
    exact ⟨hthread 0 (by simp), hthread 1 (by simp)⟩
  · intro htwo hat x hx
    have hover : s.mainAt.over = true := by rcases hat with hat | hat <;> rw [hat] <;> rfl
    have hmem : x.thread ∈ s.handed.map Handover.thread := List.mem_map_of_mem hx
    rw [h.handed_of_over hover] at hmem
    obtain ⟨hfirst, hsecond⟩ := htwo hat
    -- the third thread has been joined, the first two are the condition
    have hthird := h.joined hat
    simp only [List.mem_cons, List.not_mem_nil, or_false] at hmem
    rcases hmem with hk | hk | hk <;> rw [hk]
    · exact hfirst
    · exact hsecond
    · exact hthird

end Counted

/-! ### When a thread ends -/

theorem mainStep_ended (hstep : mainStep s = some t) (l : ℕ) : t.Ended l ↔ s.Ended l := by
  unfold mainStep at hstep
  split at hstep
  · split at hstep
    · cases hstep
    · cases hstep
      exact Iff.rfl
  · cases hstep
  · obtain ⟨th, -, rfl⟩ := Option.map_eq_some_iff.mp hstep
    exact Iff.rfl
  · cases hstep
    exact Iff.rfl
  · split at hstep
    · cases hstep
      exact Iff.rfl
    · obtain ⟨th, hth, rfl⟩ := Option.map_eq_some_iff.mp hstep
      exact ended_set { th with detached := true } hth Iff.rfl l
  · cases hstep
    exact Iff.rfl
  · obtain ⟨k, -, hjoin⟩ := Option.bind_eq_some_iff.mp hstep
    split at hjoin
    · cases hjoin
      exact Iff.rfl
    · cases hjoin
  · cases hstep
    exact Iff.rfl
  · cases hstep

theorem create_ended (hstep : create s ok = some t) (l : ℕ) : t.Ended l ↔ s.Ended l := by
  unfold create at hstep
  split at hstep
  · split at hstep
    · dsimp only at hstep
      split at hstep
      · cases hstep
        -- The new thread is at its first statement.
        by_cases hl : l < s.threads.length
        · simp [Server.Ended, List.getElem?_append_left hl]
        · have hnone : s.threads[l]? = none := List.getElem?_eq_none (Nat.le_of_not_lt hl)
          obtain hlast | hlt := Nat.eq_or_lt_of_not_lt hl
          · simp [Server.Ended, hlast]
          · simp [Server.Ended, hnone, List.getElem?_append_right (Nat.le_of_not_lt hl),
              Nat.sub_ne_zero_of_lt hlt]
      · cases hstep
        exact Iff.rfl
    · cases hstep
  · cases hstep

/-- A thread that has ended has done so before or with a statement of its own. -/
theorem step_ended (hstep : step s a = some t) (l : ℕ) :
    t.Ended l ↔ s.Ended l ∨ ∃ ok, a = .service l ok ∧ s.threads[l]?.any (·.pc.ends ok) = true := by
  cases a with
  | main => simpa using mainStep_ended hstep l
  | create ok => simpa using create_ended hstep l
  | abortBacklog =>
    simp only [step, abortBacklog] at hstep
    split at hstep
    · cases hstep
      simp [Server.Ended, Server.setClient]
    · cases hstep
  | service k ok =>
    obtain ⟨th, th', hth, hmove⟩ := step_service hstep
    -- a statement of a thread ends that thread and no other
    rw [hmove.ended_iff hth l]
    apply or_congr_right
    constructor
    · rintro ⟨rfl, hends⟩
      exact ⟨ok, rfl, by rw [hth]; exact hends⟩
    · rintro ⟨ok', heq, hends⟩
      cases heq
      rw [hth] at hends
      exact ⟨rfl, hends⟩
  | client c => simpa using (step_client hstep).2.ended_iff l
  | vanish c =>
    cases hstep
    simp [Server.Ended, Server.setClient]

/-! ### The report comes -/

/-- The main thread comes to its report by itself. -/
def Reports (s : Server) : Prop :=
  ∃ n u, run step s (List.replicate n .main) = some u ∧ u.mainAt = .report ∧
    ∀ l, u.Ended l ↔ s.Ended l

theorem Reports.of_next (hstep : mainStep s = some t) (h : Reports t) : Reports s := by
  obtain ⟨n, u, hrun, hreport, hended⟩ := h
  refine ⟨n + 1, u, ?_, hreport, fun l => (hended l).trans (mainStep_ended hstep l)⟩
  rw [List.replicate_succ, run_cons_eq_some]
  exact ⟨t, hstep, hrun⟩

private theorem Counted.reports_of_join (h : Counted s) (hended : s.Ended 2)
    (hmain : s.mainAt = .join) : Reports s := by
  have hthird : s.thirdThread = some 2 := h.third (.inr (by rw [hmain]; rfl))
  have hstep : OneShot.mainStep s = some (s.mainGoto .report) := by
    simp [OneShot.mainStep, hmain, hthird, hended]
  exact .of_next hstep ⟨0, _, rfl, rfl, fun _ => Iff.rfl⟩

private theorem Counted.reports_of_count (h : Counted s) (hended : s.Ended 2)
    (htwo : s.clientsServed = 2) (hmain : s.mainAt = .count) : Reports s := by
  have hstep : OneShot.mainStep s =
      some { s with clientsServed := s.clientsServed + 1, mainAt := .join } := by
    simp [OneShot.mainStep, hmain, htwo, maxClients]
  exact .of_next hstep ((h.mainStep hstep).reports_of_join hended rfl)

private theorem Counted.reports_of_keep (h : Counted s) (hended : s.Ended 2)
    (htwo : s.clientsServed = 2) (hmain : s.mainAt = .keep k) : Reports s := by
  have hstep : OneShot.mainStep s = some { s with mainAt := .count, thirdThread := some k } := by
    simp [OneShot.mainStep, hmain, htwo]
  exact .of_next hstep ((h.mainStep hstep).reports_of_count hended htwo rfl)

private theorem Counted.reports_of_close (h : Counted s) (hended : s.Ended 2)
    (htwo : s.clientsServed = 2) (hmain : s.mainAt = .close c k) : Reports s := by
  have hstep : OneShot.mainStep s =
      some ((s.setClient c { s.client c with closed := true }).mainGoto (.keep k)) := by
    simp [OneShot.mainStep, hmain]
  exact .of_next hstep ((h.mainStep hstep).reports_of_keep hended htwo rfl)

/-- Three threads were created while the loop still counts to three: the main thread
is at the third client. -/
private theorem Counted.served_two (h : Counted s) (hended : s.Ended 2)
    (hover : s.mainAt.over = false) : s.mainAt.uncounted = 1 ∧ s.clientsServed = 2 := by
  obtain ⟨th, hth, -⟩ := ended_iff.mp hended
  have hlength : 2 < s.clientsServed + s.mainAt.uncounted :=
    h.length ▸ (List.getElem?_eq_some_iff.mp hth).1
  have hlt : s.clientsServed < 3 := by
    rcases h.served with ⟨-, hnot⟩ | ⟨hlt, -⟩
    · rw [hover] at hnot
      cases hnot
    · exact hlt
  have hone : s.mainAt.uncounted ≤ 1 := by
    cases s.mainAt <;> simp [MainPc.uncounted]
  omega

/-- Once the third thread has ended, nothing holds up the main thread. -/
theorem Counted.reports (h : Counted s) (hended : s.Ended 2)
    (hmain : s.mainAt ≠ .report ∧ s.mainAt ≠ .exited) : Reports s := by
  have htwo := h.served_two hended
  cases hat : s.mainAt with
  | accept | create c =>
    -- No thread is uncounted here, so the third one has not been created.
    rw [hat] at htwo
    exact absurd (htwo rfl).1 (by simp [MainPc.uncounted])
  | send c k =>
    rw [hat] at htwo
    -- the endpoint at hand is that of the third thread, which has ended already
    obtain rfl : k = 2 := (h.current k (by rw [hat]; rfl)).trans (htwo rfl).2
    obtain ⟨th, hth, -⟩ := ended_iff.mp hended
    have hstep : OneShot.mainStep s = some
        { s.setClient c { s.client c with inbox := some (endpoint th.servicePort) } with
          mainAt := .close c 2, handed := s.handed ++ [⟨c, 2, s.ready 2⟩] } := by
      simp [OneShot.mainStep, hat, hth]
    exact .of_next hstep ((h.mainStep hstep).reports_of_close hended (htwo rfl).2 rfl)
  | close c k => exact h.reports_of_close hended (htwo (by rw [hat]; rfl)).2 hat
  | keep k => exact h.reports_of_keep hended (htwo (by rw [hat]; rfl)).2 hat
  | count => exact h.reports_of_count hended (htwo (by rw [hat]; rfl)).2 hat
  | join => exact h.reports_of_join hended hat
  | report => exact absurd hat hmain.1
  | exited => exact absurd hat hmain.2

/-! ### The main result -/

/-- The first two threads are the first to end. -/
def FirstTwoFirst (s : Server) : Prop := s.Ended 2 → s.Ended 0 ∧ s.Ended 1

theorem firstTwoFirst_next (h : FirstTwoFirst s) (hordered : Ordered s a)
    (hstep : step s a = some t) : FirstTwoFirst t := by
  intro hthird
  have hbefore : s.Ended 0 ∧ s.Ended 1 := by
    rcases (step_ended hstep 2).mp hthird with hthird | ⟨ok, rfl, hends⟩
    · exact h hthird
    -- The third thread ends with this step.
    · exact hordered rfl hends
  exact ⟨(step_ended hstep 0).mpr (.inl hbefore.1), (step_ended hstep 1).mpr (.inl hbefore.2)⟩

/-- The step with which the third thread ends too early. -/
theorem ended_of_not_ordered (hnot : ¬ Ordered s a) (hstep : step s a = some t) :
    t.Ended 2 ∧ ¬ s.Ended 2 ∧ ¬ (t.Ended 0 ∧ t.Ended 1) := by
  cases a with
  | service k ok =>
    simp only [Ordered, Classical.not_imp] at hnot
    obtain ⟨rfl, hends, htwo⟩ := hnot
    refine ⟨(step_ended hstep 2).mpr (.inr ⟨ok, rfl, hends⟩), ?_, ?_⟩
    · intro hended
      obtain ⟨th, hth, hpc⟩ := ended_iff.mp hended
      simp [hth, hpc, ThreadPc.ends] at hends
    · simpa [step_ended hstep] using htwo
  | _ => exact absurd trivial hnot

/-- If the third thread ends after the first two, the clients whose endpoints were
sent are served when the report comes. With each step that ends it before them, the
main thread comes to the report, by its own next statements, while somebody is not
served. -/
theorem allServed_of_ordered {acts : List Action} (hrun : run step start acts = some s) :
    (Along step Ordered start acts → AllServed s) ∧
      ∀ a t, ¬ Ordered s a → step s a = some t →
        ∃ n u, run step t (List.replicate n .main) = some u ∧ ¬ AllServed u := by
  have hcounted : Counted s := .run hrun
  constructor
  · intro halong
    have hfirst : FirstTwoFirst s :=
      Along.run (fun _ _ _ => firstTwoFirst_next) (by simp [FirstTwoFirst, Server.Ended, start])
        halong hrun
    exact hcounted.allServed_iff.mpr fun hat => hfirst (hcounted.joined hat)
  · intro a t hnot hstep
    obtain ⟨hthird, hbefore, htwo⟩ := ended_of_not_ordered hnot hstep
    have hafter : Counted t := Counted.preserved hcounted hstep
    -- The main thread has not reported yet: it waits for the third thread.
    have hmain : t.mainAt = s.mainAt := by
      cases a with
      | service k ok =>
        obtain ⟨th, th', -, hmove⟩ := step_service hstep
        rw [hmove.eq]
      | _ => exact absurd trivial hnot
    have hwaits : t.mainAt ≠ .report ∧ t.mainAt ≠ .exited := by
      rw [hmain]
      exact ⟨fun hat => hbefore (hcounted.joined (.inl hat)),
        fun hat => hbefore (hcounted.joined (.inr hat))⟩
    obtain ⟨n, u, hmains, hreport, hended⟩ := hafter.reports hthird hwaits
    refine ⟨n, u, hmains, fun hall => htwo ?_⟩
    have hcountedLast : Counted u := Counted.preserved.run hafter hmains
    simpa [hended] using hcountedLast.allServed_iff.mp hall (.inl hreport)

/-- Client `c` asks the main server and is sent the endpoint of its thread, which
waits for a connection then. -/
def handOut (c : ℕ) : List Action :=
  [.client c, .main, .create true] ++ List.replicate 4 .main ++ List.replicate 3 (.service c true)

/-- Client `c` connects to its thread, is answered, and the thread ends. -/
def serve (c : ℕ) : List Action :=
  List.replicate 3 (.client c) ++ List.replicate 5 (.service c true)

theorem allServed_of_ordered_inTurn :
    ∃ s, run step start
        (handOut 0 ++ serve 0 ++ handOut 1 ++ serve 1 ++ handOut 2 ++ serve 2 ++ [.main, .main]) =
          some s ∧ s.mainAt = .exited ∧ AllServed s := by
  let acts : List Action :=
    handOut 0 ++ serve 0 ++ handOut 1 ++ serve 1 ++ handOut 2 ++ serve 2 ++ [.main, .main]
  have hend : (run step start acts).map Server.mainAt = some .exited := by decide
  obtain ⟨s, hrun, hmain⟩ := Option.map_eq_some_iff.mp hend
  have halong : Along step Ordered start acts := by decide
  exact ⟨s, hrun, hmain, (allServed_of_ordered hrun).1 halong⟩

/-- The third client is served while the others have not asked their threads yet. -/
theorem not_allServed_thirdFirst :
    ¬ ∀ acts s, run step start acts = some s → AllServed s := by
  intro hall
  have hend : (run step start
      (handOut 0 ++ handOut 1 ++ handOut 2 ++ serve 2 ++ [.main])).map
        (fun s => (s.mainAt, s.handed, s.threads.map Service.pc)) =
      some (.report, [⟨0, 0, false⟩, ⟨1, 1, false⟩, ⟨2, 2, false⟩],
        [.accept, .accept, .ended]) := by
    decide
  obtain ⟨s, hrun, hs⟩ := Option.map_eq_some_iff.mp hend
  obtain ⟨hmain, hhanded, hthreads⟩ := by simpa only [Prod.mk.injEq] using hs
  have hserved : s.Ended 0 := hall _ s hrun (.inl hmain) ⟨0, 0, false⟩ (by simp [hhanded])
  rw [Server.Ended, ← List.getElem?_map, hthreads] at hserved
  simp at hserved

end UnixLessons.OneShot

import Mathlib.Algebra.Order.BigOperators.Group.List
import Mathlib.Data.Finset.Lattice.Lemmas
import UnixLessons.Signals.Receivers

/-!
# Which signals are reported, and which end the receiver?

Signals that come while one is pending are not counted, so a receiver may report fewer
signals than it was sent. But after each of them it has still a report to make.

## Main results

* `receiver_survives_iff`: a receiver lives as long as it is not given a signal that it is not
  prepared for
* `every_signal_reported`: what the first and the third receiver have printed when they rest
-/

namespace UnixLessons.Signals

open Text Transition Process

variable {task : Task} {pid : ℤ} {p q : Process} {a : Action} {acts : List Action} {sig : ℕ}

/-- What a statement of a receiver does: it prepares, announces itself, prints in its handler,
takes a signal from the pending ones, or prints one it has taken. -/
theorem receiver_cases (hstep : task.receiver p = some q) :
    (p.pc = .setup ∧ ∃ handled blocked, q = { p with handled, blocked, pc := .announce } ∧
      match task with
      | .one => handled = insert task.expected p.handled ∧ blocked = p.blocked
      | _ => handled = p.handled ∧ blocked = insert task.expected p.blocked) ∨
    (p.pc = .announce ∧ q = (p.print .started).goto .wait) ∨
    (task = .one ∧ ∃ sig back, p.pc = .handler sig back ∧ q = p.handler sig back) ∨
    (task = .three ∧ p.pc = .wait ∧ sigusr1 ∈ p.pending ∧
      q = { p with pending := p.pending.erase sigusr1, pc := .report sigusr1 }) ∨
    (task = .three ∧ ∃ sig, p.pc = .report sig ∧ q = (p.print (.number sig)).goto .wait) := by
  cases task with
  | one =>
    cases hpc : p.pc with
    | setup =>
      simp only [Task.receiver, TaskOne.receiver, hpc, Option.some.injEq] at hstep
      exact .inl ⟨rfl, _, _, hstep.symm, rfl, rfl⟩
    | announce =>
      simp only [Task.receiver, TaskOne.receiver, hpc, Option.some.injEq] at hstep
      exact .inr (.inl ⟨rfl, hstep.symm⟩)
    | handler sig back =>
      simp only [Task.receiver, TaskOne.receiver, hpc, Option.some.injEq] at hstep
      exact .inr (.inr (.inl ⟨rfl, sig, back, rfl, hstep.symm⟩))
    | wait | report => simp [Task.receiver, TaskOne.receiver, hpc] at hstep
  | two =>
    cases hpc : p.pc with
    | setup =>
      simp only [Task.receiver, TaskTwo.receiver, hpc, Option.some.injEq] at hstep
      exact .inl ⟨rfl, _, _, hstep.symm, rfl, rfl⟩
    | announce =>
      simp only [Task.receiver, TaskTwo.receiver, hpc, Option.some.injEq] at hstep
      exact .inr (.inl ⟨rfl, hstep.symm⟩)
    | wait | handler | report => simp [Task.receiver, TaskTwo.receiver, hpc] at hstep
  | three =>
    cases hpc : p.pc with
    | setup =>
      simp only [Task.receiver, TaskThree.receiver, hpc, Option.some.injEq] at hstep
      exact .inl ⟨rfl, _, _, hstep.symm, rfl, rfl⟩
    | announce =>
      simp only [Task.receiver, TaskThree.receiver, hpc, Option.some.injEq] at hstep
      exact .inr (.inl ⟨rfl, hstep.symm⟩)
    | wait =>
      simp only [Task.receiver, TaskThree.receiver, hpc] at hstep
      split_ifs at hstep with hpending
      exact .inr (.inr (.inr (.inl ⟨rfl, rfl, hpending, (Option.some.inj hstep).symm⟩)))
    | report sig =>
      simp only [Task.receiver, TaskThree.receiver, hpc, Option.some.injEq] at hstep
      exact .inr (.inr (.inr (.inr ⟨rfl, sig, rfl, hstep.symm⟩)))
    | handler => simp [Task.receiver, TaskThree.receiver, hpc] at hstep

/-- The signals a process handles or blocks at each place in the code of its task. -/
def Guarded (task : Task) (p : Process) : Prop :=
  match task, p.pc with
  | _, .setup => p.handled = ∅ ∧ p.blocked = ∅
  | .one, .handler sig back =>
    sig = sigusr1 ∧ (back = .announce ∨ back = .wait) ∧ p.handled = {sigusr1} ∧
      p.blocked = {sigusr1}
  | .one, .announce | .one, .wait => p.handled = {sigusr1} ∧ p.blocked = ∅
  | .two, .announce | .two, .wait => p.handled = ∅ ∧ p.blocked = {sigint}
  | .three, .announce | .three, .wait | .three, .report _ =>
    p.handled = ∅ ∧ p.blocked = {sigusr1}
  | _, _ => False

namespace Guarded

theorem start : Guarded task start := ⟨rfl, rfl⟩

/-- What is guarded depends on the place only. -/
theorem congr (h : Guarded task p) (hpc : q.pc = p.pc) (hhandled : q.handled = p.handled)
    (hblocked : q.blocked = p.blocked) : Guarded task q := by
  unfold Guarded at *
  rw [hpc, hhandled, hblocked]
  exact h

theorem send (h : Guarded task p) (orphaned : Bool) (sig : ℕ) :
    Guarded task (p.send orphaned sig) := by
  unfold Process.send Process.resume
  split_ifs <;> exact h.congr rfl rfl rfl

theorem deliver (h : Guarded task p) (hstep : p.deliver sig = some q) : Guarded task q := by
  unfold Process.deliver at hstep
  split_ifs at hstep with hcond
  obtain ⟨-, -, -, hhandled, hblocked⟩ := hcond
  obtain rfl := Option.some.inj hstep
  unfold Guarded at h ⊢
  cases task <;> cases hpc : p.pc <;> simp_all

theorem receiver (h : Guarded task p) (hstep : task.receiver p = some q) : Guarded task q := by
  unfold Guarded at h
  rcases receiver_cases hstep with ⟨hpc, handled, blocked, rfl, hguard⟩ | ⟨hpc, rfl⟩ |
    ⟨rfl, sig, back, hpc, rfl⟩ | ⟨rfl, hpc, -, rfl⟩ | ⟨rfl, sig, hpc, rfl⟩
  · simp only [hpc] at h
    obtain ⟨hhandled, hblocked⟩ := h
    rw [hhandled, hblocked] at hguard
    cases task <;> exact hguard
  · simp only [hpc] at h
    cases task <;> exact h
  · simp only [hpc] at h
    obtain ⟨rfl, hback, hhandled, hblocked⟩ := h
    have hnone : p.blocked.erase sigusr1 = ∅ := by rw [hblocked, Finset.erase_singleton]
    rcases hback with rfl | rfl
    · exact ⟨hhandled, hnone⟩
    · exact ⟨hhandled, hnone⟩
  · simp only [hpc] at h
    exact h
  · simp only [hpc] at h
    exact h

theorem preserved : Preserved (step task pid) (Guarded task) := by
  intro p a q h hstep
  cases a with
  | sender argv orphaned =>
    simp only [step] at hstep
    split at hstep
    · exact Option.some.inj hstep ▸ h.send _ _
    · exact Option.some.inj hstep ▸ h
  | deliver sig => exact h.deliver hstep
  | receiver =>
    simp only [step] at hstep
    split_ifs at hstep
    exact h.receiver hstep

/-- Once it is prepared, a receiver guards against the signal of its task, and before that
against none. -/
theorem union_eq (h : Guarded task p) :
    p.handled ∪ p.blocked = if p.pc = .setup then ∅ else {task.expected} := by
  unfold Guarded at h
  cases task <;> cases hpc : p.pc <;> simp_all [Task.expected]

end Guarded

/-! ### Survival -/

/-- A signal that ends processes, and is not the one the receiver has prepared for. -/
def Ends (task : Task) (p : Process) (sig : ℕ) : Prop :=
  terminates sig = true ∧ ¬ (p.pc ≠ .setup ∧ sig = task.expected)

/-- A sender that is started does not end the receiver. It sends no signal that does, or only
to a receiver that is stopped, and then not `SIGKILL`; and it sends `SIGCONT` only when no such
signal has been kept for the receiver. -/
def Spares (task : Task) (pid : ℤ) (p : Process) : Action → Prop
  | .sender argv _ => ∀ sig ∈ arriving task.signum argv pid,
      (Ends task p sig → p.stopped = true ∧ sig ≠ sigkill) ∧
        (sig = sigcont → ∀ sig' ∈ p.pending, ¬ Ends task p sig')
  | _ => True

theorem expected_ne_sigkill (task : Task) : task.expected ≠ sigkill := by
  cases task <;> decide

theorem lethal_iff (h : Guarded task p) : p.Lethal sig ↔ Ends task p sig := by
  have hmem : sig ∈ p.handled ∪ p.blocked ↔ p.pc ≠ .setup ∧ sig = task.expected := by
    rw [h.union_eq]
    split_ifs with hpc <;> simp [hpc]
  rw [Ends, ← hmem, Finset.mem_union, Lethal]
  refine and_congr_right fun _ => ⟨?_, fun hnot => ?_⟩
  · rintro ⟨hhandled, hblocked⟩ (hin | hin)
    · exact hhandled hin
    · -- it is blocked, and still lethal: it is `SIGKILL`, against which nobody guards
      have hkill := hblocked.resolve_left (not_not.mpr hin)
      have hexpected := (hmem.mp (Finset.mem_union_right _ hin)).2
      exact expected_ne_sigkill task (hexpected.symm.trans hkill)
  · obtain ⟨hhandled, hblocked⟩ := not_or.mp hnot
    exact ⟨hhandled, Or.inl hblocked⟩

/-- The signals that stop a process, or let it continue, do not end it. -/
theorem not_lethal_of_stops {orphaned : Bool} (h : stops orphaned sig = true) :
    ¬ p.Lethal sig := by
  rintro ⟨hterminates, -⟩
  simp only [stops, sigstop, decide_eq_true_eq, List.mem_cons, List.not_mem_nil, or_false] at h
  rcases h with rfl | ⟨rfl | rfl | rfl, -⟩ <;> exact absurd hterminates (by decide)

theorem not_lethal_sigcont : ¬ p.Lethal sigcont :=
  fun h => absurd h.1 (by decide)

theorem alive_send (p : Process) (orphaned : Bool) (sig : ℕ) :
    (p.send orphaned sig).alive = true ↔ p.alive = true ∧
      (p.Lethal sig → p.stopped = true ∧ sig ≠ sigkill) ∧
        (sig = sigcont → ∀ sig' ∈ p.pending, ¬ p.Lethal sig') := by
  unfold Process.send Process.resume
  split_ifs with hcont hpending hstops hends hguarded
  · subst hcont
    simp only [true_implies, false_iff, not_and]
    obtain ⟨sig', hmem, hlethal⟩ := hpending
    exact fun _ _ h => h sig' hmem hlethal
  · subst hcont
    simp only [true_implies, not_lethal_sigcont, false_implies, true_and]
    exact ⟨fun h => ⟨h, fun sig' hmem hlethal => hpending ⟨sig', hmem, hlethal⟩⟩, fun h => h.1⟩
  · simp [not_lethal_of_stops hstops.1, hcont]
  · simp only [false_iff, not_and]
    rintro - h
    obtain ⟨hstopped, hkill⟩ := h hends.1
    rcases hends.2 with hruns | rfl
    · rw [hstopped] at hruns
      cases hruns
    · exact absurd rfl hkill
  · simp only [hcont, false_implies, and_true, iff_self_and]
    rw [not_and, not_or] at hends
    exact fun _ h => ⟨Bool.eq_true_of_not_eq_false (hends h).1, (hends h).2⟩
  · simp only [hcont, false_implies, and_true, iff_self_and]
    exact fun _ h => absurd (Or.inl h) hguarded

theorem alive_receiver (hstep : task.receiver p = some q) : q.alive = p.alive := by
  rcases receiver_cases hstep with ⟨-, _, _, rfl, -⟩ | ⟨-, rfl⟩ | ⟨-, _, _, -, rfl⟩ |
    ⟨-, -, -, rfl⟩ | ⟨-, _, -, rfl⟩ <;> rfl

/-- One step: the receiver lives on exactly if it is spared. -/
theorem alive_iff_spares (h : Guarded task p) (hstep : step task pid p a = some q) :
    q.alive = true ↔ p.alive = true ∧ Spares task pid p a := by
  cases a with
  | sender argv orphaned =>
    simp only [step] at hstep
    cases harriving : arriving task.signum argv pid with
    | none =>
      simp only [harriving, Option.some_inj] at hstep
      simp [Spares, harriving, hstep]
    | some sig =>
      -- what ends the receiver is what `send` or `resume` finds lethal
      simp only [harriving, Option.some_inj] at hstep
      subst hstep
      simp only [alive_send, Spares, harriving, Option.mem_some_iff, forall_eq', lethal_iff h]
  | deliver sig =>
    simp only [step, deliver] at hstep
    split_ifs at hstep
    obtain rfl := Option.some.inj hstep
    simp [Spares]
  | receiver =>
    simp only [step] at hstep
    split_ifs at hstep with halive
    rw [alive_receiver hstep]
    simp [Spares]

/-- `SIGSTOP` and then `SIGTERM`, which the receiver survives until `SIGCONT`. -/
def stopped : List Action :=
  [.receiver, .receiver, .sender ["sender".toList, "19".toList, "7".toList] false,
    .sender ["sender".toList, "15".toList, "7".toList] false]

namespace Process

/-- How many signals have been reported. -/
def lines (p : Process) : ℕ := (p.out.filter (· ≠ .started)).length

/-- With the one that is being reported. -/
def reports (p : Process) : ℕ :=
  p.lines + match p.pc with
    | .handler _ _ | .report _ => 1
    | _ => 0

/-- How many signals of one number wait. -/
def waiting (sig : ℕ) (pending : Finset ℕ) : ℕ := if sig ∈ pending then 1 else 0

/-- With the one that waits. -/
def due (task : Task) (p : Process) : ℕ := p.reports + waiting task.expected p.pending

end Process

/-- A sender sends this receiver the signal it is prepared for. -/
def Comes (task : Task) (pid : ℤ) : Action → Bool
  | .sender argv _ => decide (arriving task.signum argv pid = some task.expected)
  | _ => false

/-- A statement of the receiver reports nothing new: what it takes was pending. -/
theorem due_receiver (h : Guarded task p) (hstep : task.receiver p = some q) :
    q.due task = p.due task := by
  rcases receiver_cases hstep with ⟨hpc, handled, blocked, rfl, -⟩ | ⟨hpc, rfl⟩ |
    ⟨rfl, sig, back, hpc, rfl⟩ | ⟨rfl, hpc, hpending, rfl⟩ | ⟨rfl, sig, hpc, rfl⟩
  · simp [due, reports, lines, hpc]
  · simp [due, reports, lines, print, goto, hpc]
  · simp only [Guarded, hpc] at h
    obtain ⟨-, hback, -⟩ := h
    rcases hback with rfl | rfl
    · simp [due, reports, lines, print, handler, hpc]
    · simp [due, reports, lines, print, handler, hpc]
  · simp [due, reports, lines, waiting, Task.expected, hpending, hpc]
  · simp [due, reports, lines, print, goto, hpc]

theorem due_deliver (h : Guarded task p) (hstep : p.deliver sig = some q) :
    q.due task = p.due task := by
  unfold Process.deliver at hstep
  split_ifs at hstep with hcond
  obtain ⟨-, -, hpending, hhandled, hblocked⟩ := hcond
  obtain rfl := Option.some.inj hstep
  -- only the first receiver has a handler, and it is not in it
  unfold Guarded at h
  cases task with
  | one =>
    cases hpc : p.pc with
    | announce | wait =>
      simp only [hpc] at h
      obtain ⟨hone, -⟩ := h
      rw [hone, Finset.mem_singleton] at hhandled
      subst hhandled
      simp [due, reports, lines, waiting, Task.expected, hpending, hpc]
    | setup =>
      simp only [hpc] at h
      rw [h.1] at hhandled
      simp at hhandled
    | handler sig' back =>
      simp only [hpc] at h
      obtain ⟨-, -, hone, hall⟩ := h
      rw [hone] at hhandled
      rw [hall] at hblocked
      exact absurd hhandled hblocked
    | report sig' => simp [hpc] at h
  | two | three =>
    have hnone : p.handled = ∅ := by cases hpc : p.pc <;> simp_all
    rw [hnone] at hhandled
    simp at hhandled

theorem terminates_expected (task : Task) : terminates task.expected = true := by
  cases task <;> decide

@[simp] theorem reports_send (p : Process) (orphaned : Bool) (sig : ℕ) :
    (p.send orphaned sig).reports = p.reports := by
  unfold Process.send Process.resume
  split_ifs <;> rfl

theorem waiting_le (sig : ℕ) (pending : Finset ℕ) : waiting sig pending ≤ 1 := by
  unfold waiting
  split_ifs <;> omega

theorem waiting_insert (sig sig' : ℕ) (pending : Finset ℕ) :
    waiting sig pending ≤ waiting sig (insert sig' pending) ∧
      (sig' ≠ sig → waiting sig (insert sig' pending) = waiting sig pending) := by
  unfold waiting
  by_cases hmem : sig ∈ pending
  · simp [hmem]
  · by_cases heq : sig = sig'
    · subst heq
      simp [hmem]
    · simp [hmem, heq]

theorem expected_not_stops (task : Task) (orphaned : Bool) :
    task.expected ≠ sigcont ∧ ¬ stops orphaned task.expected = true := by
  cases task <;> cases orphaned <;> decide

/-- A signal that is sent can only be waiting then, and it is if the process lives on. -/
theorem due_send (h : Guarded task p) (orphaned : Bool) (sig : ℕ) :
    p.due task ≤ (p.send orphaned sig).due task ∧
      (sig ≠ task.expected → (p.send orphaned sig).due task = p.due task) ∧
      ((p.send orphaned sig).alive = true → sig = task.expected →
        (p.send orphaned sig).due task = p.reports + 1) := by
  have hinsert := waiting_insert task.expected sig p.pending
  simp only [due, reports_send, Nat.add_le_add_iff_left, Nat.add_left_cancel_iff]
  refine ⟨?_, fun hne => ?_, fun halive heq => ?_⟩
  · unfold Process.send Process.resume
    split_ifs
    all_goals first | exact Nat.le_refl _ | exact hinsert.1
  · unfold Process.send Process.resume
    split_ifs
    all_goals first | rfl | exact hinsert.2 hne
  · subst heq
    obtain ⟨hcont, hstops⟩ := expected_not_stops task orphaned
    -- it is kept, as the one it is prepared for or because the process is stopped
    have hlives := ((alive_send p orphaned task.expected).mp halive).2.1
    have hkept : p.Lethal task.expected ∨ task.expected ∈ p.handled ∪ p.blocked := by
      rw [lethal_iff h, Ends, h.union_eq]
      by_cases hpc : p.pc = .setup
      · exact .inl ⟨terminates_expected task, fun hboth => hboth.1 hpc⟩
      · exact .inr (by simp [hpc])
    rw [Process.send, if_neg hcont, if_neg fun hboth => hstops hboth.1, if_neg, if_pos hkept]
    · simp [waiting]
    · rintro ⟨hlethal, hruns | hkill⟩
      · rw [(hlives hlethal).1] at hruns
        cases hruns
      · exact (hlives hlethal).2 hkill

/-- What is due never gets less, and gets more by the expected signals only. -/
theorem due_step (h : Guarded task p) (hstep : step task pid p a = some q) :
    p.due task ≤ q.due task ∧ q.due task ≤ p.due task + if Comes task pid a then 1 else 0 := by
  cases a with
  | sender argv orphaned =>
    simp only [step] at hstep
    cases harriving : arriving task.signum argv pid with
    | none =>
      simp only [harriving, Option.some_inj] at hstep
      exact hstep ▸ ⟨Nat.le_refl _, Nat.le_add_right _ _⟩
    | some sig =>
      simp only [harriving, Option.some_inj] at hstep
      subst hstep
      obtain ⟨hle, hother, -⟩ := due_send h orphaned sig
      refine ⟨hle, ?_⟩
      by_cases hsig : sig = task.expected
      · have hone := waiting_le task.expected (p.send orphaned sig).pending
        simp only [Comes, harriving, hsig, decide_true, if_true, due, reports_send]
        subst hsig
        omega
      · rw [hother hsig]
        exact Nat.le_add_right _ _
  | deliver sig =>
    rw [due_deliver h hstep]
    exact ⟨Nat.le_refl _, Nat.le_add_right _ _⟩
  | receiver =>
    simp only [step] at hstep
    split_ifs at hstep
    rw [due_receiver h hstep]
    exact ⟨Nat.le_refl _, Nat.le_add_right _ _⟩

theorem due_run (h : Guarded task p) (hrun : run (step task pid) p acts = some q) :
    p.due task ≤ q.due task ∧
      q.due task ≤ p.due task + (acts.filter (Comes task pid)).length := by
  induction acts generalizing p with
  | nil =>
    obtain rfl := Option.some.inj hrun
    exact ⟨Nat.le_refl _, Nat.le_refl _⟩
  | cons a acts ih =>
    obtain ⟨u, hstep, hrest⟩ := run_cons_eq_some.mp hrun
    obtain ⟨hle, hmore⟩ := due_step h hstep
    obtain ⟨hle', hmore'⟩ := ih (Guarded.preserved h hstep) hrest
    have hcount : ((a :: acts).filter (Comes task pid)).length =
        (if Comes task pid a then 1 else 0) + (acts.filter (Comes task pid)).length := by
      rw [List.filter_cons]
      split_ifs
      · rw [List.length_cons, Nat.add_comm]
      · rw [Nat.zero_add]
    omega

/-- A process that is alive has been alive before. -/
theorem alive_of_run (h : Guarded task p) (hrun : run (step task pid) p acts = some q)
    (halive : q.alive = true) : p.alive = true := by
  induction acts generalizing p with
  | nil => rwa [Option.some.inj hrun]
  | cons a acts ih =>
    obtain ⟨u, hstep, hrest⟩ := run_cons_eq_some.mp hrun
    exact ((alive_iff_spares h hstep).mp (ih (Guarded.preserved h hstep) hrest)).1

/-- The receiver waits, and the signal it is prepared for does not. -/
def Resting (task : Task) (p : Process) : Prop := p.pc = .wait ∧ task.expected ∉ p.pending

theorem due_of_resting (h : Resting task p) : p.due task = p.lines := by
  simp [due, reports, waiting, h.1, h.2]

/-- The second receiver prints nothing but its first line. -/
theorem lines_eq_zero (hrun : run (step .two pid) start acts = some p) : p.lines = 0 := by
  have hkeeps : Preserved (step .two pid) fun p => Guarded .two p ∧ p.lines = 0 := by
    rintro p a q ⟨h, hlines⟩ hstep
    refine ⟨Guarded.preserved h hstep, ?_⟩
    cases a with
    | sender argv orphaned =>
      simp only [step] at hstep
      split at hstep
      · rw [← Option.some.inj hstep]
        unfold Process.send Process.resume
        split_ifs <;> exact hlines
      · exact Option.some.inj hstep ▸ hlines
    | deliver sig =>
      simp only [step, deliver] at hstep
      split_ifs at hstep
      exact Option.some.inj hstep ▸ hlines
    | receiver =>
      simp only [step] at hstep
      split_ifs at hstep
      rcases receiver_cases hstep with ⟨-, _, _, rfl, -⟩ | ⟨-, rfl⟩ | ⟨htask, -⟩ | ⟨htask, -⟩ |
        ⟨htask, -⟩
      · exact hlines
      · simpa [lines, print, goto] using hlines
      all_goals cases htask
  exact (hkeeps.run ⟨Guarded.start, rfl⟩ hrun).2

/-- For each signal that was sent, a report was still to be begun when it came. -/
theorem reports_lt_lines (hrun : run (step task pid) start acts = some p)
    (halive : p.alive = true) (hrest : Resting task p) {before after : List Action}
    (hacts : acts = before ++ a :: after) (hcomes : Comes task pid a = true)
    (hbefore : run (step task pid) start before = some q) : q.reports + 1 ≤ p.lines := by
  rw [← due_of_resting hrest]
  -- what is due right after the signal is due at the end, where all that is due is printed
  have hguarded := Guarded.preserved.run Guarded.start hbefore
  obtain ⟨u, hu, hafterwards⟩ := run_append_eq_some.mp (hacts ▸ hrun)
  obtain rfl := Option.some.inj (hbefore.symm.trans hu)
  obtain ⟨v, hstep, hafter⟩ := run_cons_eq_some.mp hafterwards
  have hguarded' := Guarded.preserved hguarded hstep
  have hle := (due_run hguarded' hafter).1
  have halive' := alive_of_run hguarded' hafter halive
  cases a with
  | sender argv orphaned =>
    have harriving : arriving task.signum argv pid = some task.expected :=
      of_decide_eq_true hcomes
    simp only [step, harriving, Option.some_inj] at hstep
    subst hstep
    have hdue := (due_send hguarded orphaned task.expected).2.2 halive' rfl
    omega
  | deliver | receiver => cases hcomes

/-- **No signal goes unreported.** Whenever a receiver is alive and rests, it has reported no
more signals than it was sent, and for each signal it was sent, it has made one report at
least of which it had not even begun when the signal came. So the second receiver, which
makes none, rests only as long as nothing was sent. -/
theorem every_signal_reported (hrun : run (step task pid) start acts = some p)
    (halive : p.alive = true) (hrest : Resting task p) :
    p.lines ≤ (acts.filter (Comes task pid)).length ∧
      (∀ before a after q, acts = before ++ a :: after → Comes task pid a = true →
        run (step task pid) start before = some q → q.reports + 1 ≤ p.lines) ∧
      (task = .two → p.lines = 0 ∧ acts.filter (Comes task pid) = []) := by
  refine ⟨?_, fun before a after q hacts hcomes hbefore =>
    reports_lt_lines hrun halive hrest hacts hcomes hbefore, ?_⟩
  · have hmore := (due_run Guarded.start hrun).2
    have hstart : start.due task = 0 := by simp [Signals.start, due, reports, lines, waiting]
    rw [due_of_resting hrest] at hmore
    omega
  · rintro rfl
    have hnone := lines_eq_zero hrun
    refine ⟨hnone, List.filter_eq_nil_iff.mpr fun a hmem hcomes => ?_⟩
    obtain ⟨before, after, hacts⟩ := List.append_of_mem hmem
    obtain ⟨q, hbefore, -⟩ := run_append_eq_some.mp (hacts ▸ hrun)
    have hlt := reports_lt_lines hrun halive hrest hacts hcomes hbefore
    omega

/-- Three signals come to the first receiver: one that its handler takes, and two while the
handler runs. Two are reported. -/
theorem every_signal_reported_coalesced :
    ∃ acts p, run (step .one 7) start acts = some p ∧
      (acts.filter (Comes .one 7)).length = 3 ∧
      p.out = [.started, .handled 10, .handled 10] ∧
      p.lines ≤ (acts.filter (Comes .one 7)).length ∧
      ∀ before a after q, acts = before ++ a :: after → Comes .one 7 a = true →
        run (step .one 7) start before = some q → q.reports + 1 ≤ p.lines := by
  let usr1 : Action := .sender ["sender".toList, "7".toList] false
  let acts : List Action := [.receiver, .receiver, usr1, .deliver 10, usr1,
    .sender ["sender".toList, "10".toList, "7".toList] false, .receiver, .deliver 10, .receiver]
  let p : Process :=
    ⟨.wait, {10}, ∅, ∅, false, true, [.started, .handled 10, .handled 10]⟩
  have hrun : run (step .one 7) start acts = some p := by decide
  have hthree : (acts.filter (Comes .one 7)).length = 3 := by decide
  have hrest : Resting .one p := ⟨rfl, Finset.notMem_empty _⟩
  obtain ⟨hle, hevery, -⟩ := every_signal_reported hrun rfl hrest
  exact ⟨acts, p, hrun, hthree, rfl, hle, hevery⟩

end UnixLessons.Signals

import UnixLessons.Shell.Processes

/-!
# Does the shell clean up?

After a command the shell has waited for its children and closed its pipe. But when
`fork` fails in a pipeline it gives the command up with what it has got so far: the
pipe stays open, and after the second `fork` the first child is never waited for by
this command. A later `wait` may return with that child.

## Main results

* `InOrder`: the children and descriptors at each place in the code
* `clean_iff_forks`: the shell cleans up exactly if no `fork` of a pipeline fails
-/

namespace UnixLessons.Shell

open Text Descriptors Transition

variable {s t : State} {a : Action} {child : Option ℕ} {pid : ℕ}

/-- Whenever the prompt is printed, every child has been waited for and no pipe is open;
and `wait` can only return with the child of its own command. -/
structure Clean (s : State) : Prop where
  reaped : s.pc = .prompt → s.children = []
  closed : s.pc = .prompt → ∀ fd, fd ∉ s.fds
  own : ∀ pid, s.pc = .wait pid → ∀ c ∈ s.children, c.pid = pid

/-- `fork` does not fail in a pipeline. -/
def Forks (s : State) : Action → Prop
  | .fork none => s.pc = .fork
  | _ => True

instance (s : State) : ∀ a, Decidable (Forks s a)
  | .fork none => inferInstanceAs (Decidable (_ = _))
  | .fork (some _) | .read | .pipe _ | .close | .reap _ | .exit _ =>
    inferInstanceAs (Decidable True)

/-! ### What the shell has at each place -/

/-- The children the command has created and not waited for. -/
def Pc.pids : Pc → List ℕ
  | .wait pid => [pid]
  | .forkSecond _ _ pid1 => [pid1]
  | .closeRead _ _ pid1 pid2 | .closeWrite _ pid1 pid2 | .waitFirst pid1 pid2 => [pid1, pid2]
  | .waitSecond pid2 => [pid2]
  | .prompt | .fork | .pipe | .forkFirst _ _ | .ended => []

/-- The descriptors the command has opened and not closed. -/
def Pc.descriptors : Pc → List ℕ
  | .forkFirst r w | .forkSecond r w _ | .closeRead r w _ _ => [r, w]
  | .closeWrite w _ _ => [w]
  | .prompt | .fork | .wait _ | .pipe | .waitFirst _ _ | .waitSecond _ | .ended => []

/-- The shell has the children and descriptors of its present command and no others. -/
structure InOrder (s : State) : Prop where
  children : s.children.map Child.pid = s.pc.pids
  fds : ∀ fd, fd ∈ s.fds ↔ fd ∈ s.pc.descriptors
  nodup : s.pc.pids.Nodup ∧ s.pc.descriptors.Nodup

namespace InOrder

theorem start (commands : List Dispatch) : InOrder (start commands) := by
  constructor <;> simp [Shell.start, Pc.pids, Pc.descriptors]

theorem clean (h : InOrder s) : Clean s where
  reaped hpc := by simpa [hpc, Pc.pids] using h.children
  closed hpc fd := by simp [h.fds, hpc, Pc.descriptors]
  own pid hpc c hc := by
    have hmem : c.pid ∈ s.children.map Child.pid := List.mem_map_of_mem hc
    rw [h.children, hpc] at hmem
    exact List.mem_singleton.mp hmem

/-- The shell moves on with the same children and descriptors. -/
theorem goto (h : InOrder s) {pc : Pc} (hpids : pc.pids = s.pc.pids)
    (hfds : pc.descriptors = s.pc.descriptors) : InOrder (s.goto pc) where
  children := h.children.trans hpids.symm
  fds fd := by
    rw [State.goto, hfds]
    exact h.fds fd
  nodup := by
    rw [State.goto, hpids, hfds]
    exact h.nodup

theorem spawn (h : InOrder s) {pc : Pc} (hpids : pc.pids = s.pc.pids ++ [pid])
    (hfds : pc.descriptors = s.pc.descriptors) (hstep : s.spawn pid pc = some t) : InOrder t := by
  unfold State.spawn at hstep
  split at hstep
  · cases hstep
  · rename_i hnew
    cases hstep
    rw [not_or] at hnew
    refine ⟨?_, fun fd => ?_, ?_, ?_⟩
    · rw [List.map_append, h.children, hpids]
      rfl
    · rw [hfds]
      exact h.fds fd
    · rw [hpids, List.nodup_append_comm]
      exact List.nodup_cons.mpr ⟨h.children ▸ hnew.2, h.nodup.1⟩
    · rw [hfds]
      exact h.nodup.2

theorem read (h : InOrder s) (hstep : s.read = some t) : InOrder t := by
  unfold State.read at hstep
  split at hstep <;> cases hstep
  all_goals
    rename_i hpc _
    refine ⟨h.children.trans ?_, fun fd => (h.fds fd).trans ?_, ?_, ?_⟩ <;>
      simp [hpc, State.goto, Pc.pids, Pc.descriptors]

/-- The child that `fork` creates is the one the shell will wait for. -/
theorem fork (h : InOrder s) (hforks : Forks s (.fork child)) (hstep : s.fork child = some t) :
    InOrder t := by
  unfold State.fork at hstep
  split at hstep
  case h_4 hpc =>
    cases hstep
    exact h.goto (by rw [hpc]; rfl) (by rw [hpc]; rfl)
  -- in a pipeline `fork` has not failed
  case h_5 hpc | h_6 hpc =>
    rw [Forks, hpc] at hforks
    cases hforks
  case h_7 => cases hstep
  all_goals
    rename_i hpc
    exact h.spawn (by rw [hpc]; rfl) (by rw [hpc]; rfl) hstep

theorem pipe (h : InOrder s) {fds : Option (ℕ × ℕ)} (hstep : s.pipe fds = some t) :
    InOrder t := by
  unfold State.pipe at hstep
  split at hstep
  · rename_i r w hpc
    split at hstep <;> cases hstep
    rename_i hunused
    refine ⟨?_, fun fd => ?_, List.nodup_nil, ?_⟩
    · rw [h.children, hpc]
      rfl
    · -- no descriptor was open before
      have hnone : fd ∉ s.fds := by simp [h.fds, hpc, Pc.descriptors]
      simp [openPipe, AList.mem_insert, hnone, Pc.descriptors, or_comm]
    · simpa [Pc.descriptors] using hunused.2.2
  · rename_i hpc
    cases hstep
    exact h.goto (by rw [hpc]; rfl) (by rw [hpc]; rfl)
  · cases hstep

theorem close (h : InOrder s) (hstep : s.close = some t) : InOrder t := by
  have hfds := h.fds
  have hnodup := h.nodup
  unfold State.close at hstep
  split at hstep
  · rename_i r w pid1 pid2 hpc
    cases hstep
    rw [hpc] at hnodup hfds
    have hrw : r ≠ w := by simpa [Pc.descriptors] using hnodup.2
    refine ⟨h.children.trans (by rw [hpc]; rfl), fun fd => ?_, hnodup.1, List.nodup_singleton w⟩
    rw [AList.mem_erase, hfds]
    -- `w` stays, since it is not `r`
    by_cases hfd : fd = r
    · simp [hfd, Pc.descriptors, hrw]
    · simp [hfd, Pc.descriptors]
  · rename_i w pid1 pid2 hpc
    cases hstep
    rw [hpc] at hnodup hfds
    refine ⟨h.children.trans (by rw [hpc]; rfl), fun fd => ?_, hnodup.1, List.nodup_nil⟩
    rw [AList.mem_erase, hfds]
    simp [Pc.descriptors]
  · cases hstep

/-- A child that has been waited for is gone; the others are still there. -/
theorem map_filter_pid (children : List Child) (pid : ℕ) :
    (children.filter (·.pid ≠ pid)).map Child.pid =
      (children.map Child.pid).filter (· ≠ pid) := by
  rw [List.filter_map]
  rfl

theorem reap (h : InOrder s) (hstep : s.reap pid = some t) : InOrder t := by
  have hnodup := h.nodup
  have hfds := h.fds
  simp only [State.reap] at hstep
  split at hstep
  · rename_i hmem
    have hown : pid ∈ s.pc.pids := h.children ▸ List.mem_map_of_mem hmem
    have hrest := map_filter_pid s.children pid
    rw [h.children] at hrest
    split at hstep
    · -- `wait` can only find the child of this command
      rename_i own hpc
      cases hstep
      rw [hpc] at hown hrest hfds
      obtain rfl : pid = own := List.mem_singleton.mp hown
      refine ⟨hrest.trans ?_, hfds, List.nodup_nil, List.nodup_nil⟩
      simp [Pc.pids, State.goto]
    · rename_i pid1 pid2 hpc
      split at hstep <;> cases hstep
      rename_i heq
      subst heq
      rw [hpc] at hrest hfds hnodup
      have hne : pid ≠ pid2 := by simpa [Pc.pids] using hnodup.1
      refine ⟨hrest.trans ?_, hfds, List.nodup_singleton pid2, List.nodup_nil⟩
      simp [Pc.pids, State.goto, hne.symm]
    · rename_i pid2 hpc
      split at hstep <;> cases hstep
      rename_i heq
      subst heq
      rw [hpc] at hrest hfds
      refine ⟨hrest.trans ?_, hfds, List.nodup_nil, List.nodup_nil⟩
      simp [Pc.pids, State.goto]
    · cases hstep
  · cases hstep

theorem exit (h : InOrder s) (hstep : s.exit pid = some t) : InOrder t := by
  unfold State.exit at hstep
  split at hstep <;> cases hstep
  refine ⟨?_, h.fds, h.nodup⟩
  rw [← h.children, List.map_map]
  apply List.map_congr_left
  intro c _
  by_cases hc : c.pid = pid <;> simp [hc]

/-- Every step but a failed `fork` in a pipeline. -/
theorem step (h : InOrder s) (hforks : Forks s a) (hstep : step s a = some t) : InOrder t := by
  cases a with
  | read => exact h.read hstep
  | fork child => exact h.fork hforks hstep
  | pipe fds => exact h.pipe hstep
  | close => exact h.close hstep
  | reap pid => exact h.reap hstep
  | exit pid => exact h.exit hstep

/-- After a `fork` that failed in a pipeline the prompt comes with the pipe open. -/
theorem not_clean (h : InOrder s) (hforks : ¬ Forks s a) (hstep : Shell.step s a = some t) :
    ¬ Clean t := by
  cases a with
  | fork child =>
    cases child with
    | some pid => exact absurd trivial hforks
    | none =>
      intro hclean
      simp only [Shell.step, State.fork] at hstep
      split at hstep
      case h_4 hpc _ => exact hforks hpc
      case h_5 r w hpc _ | h_6 r w pid1 hpc _ =>
        cases hstep
        refine hclean.closed rfl r ((h.fds r).mpr ?_)
        rw [hpc]
        exact List.mem_cons_self
      all_goals contradiction
  | read | pipe | close | reap | exit => exact absurd trivial hforks

end InOrder

/-! ### Whole runs -/

/-- The shell leaves nothing behind exactly as long as no `fork` fails in a pipeline;
`pipe` and the `fork` of a simple command may fail. -/
theorem clean_iff_forks (commands : List Dispatch) {acts : List Action}
    (hrun : run step (start commands) acts = some s) :
    (∀ bs u, bs <+: acts → run step (start commands) bs = some u → Clean u) ↔
      Along step Forks (start commands) acts := by
  have hclean : ∀ ⦃s⦄, InOrder s → Clean s := by
    intro s h
    exact h.clean
  apply forall_states_iff hclean
  · intro s a t h hforks hstep
    exact h.step hforks hstep
  · intro s a t h hforks hstep
    exact h.not_clean hforks hstep
  · exact .start commands
  · exact hrun

/-- A pipeline and then a simple command: each time the prompt is back, the shell has
no child and no pipe. -/
theorem clean_iff_forks_pipeline :
    ∃ commands acts s, run step (start commands) acts = some s ∧
      (∀ bs u, bs <+: acts → run step (start commands) bs = some u → Clean u) ∧
      s.pc = .prompt ∧ s.pipes = 1 := by
  let commands : List Dispatch := [.pipeCommand "ls|wc".toList 2, .simpleCommand "ls".toList]
  let acts : List Action := [.read, .pipe (some (3, 4)), .fork (some 1), .fork (some 2), .close,
    .close, .exit 2, .exit 1, .reap 1, .reap 2, .read, .fork (some 3), .exit 3, .reap 3]
  have hend : (run step (start commands) acts).map (fun s => (s.pc, s.pipes)) =
      some (.prompt, 1) := by decide
  have hforks : Along step Forks (start commands) acts := by decide
  obtain ⟨s, hrun, hs⟩ := Option.map_eq_some_iff.mp hend
  obtain ⟨hpc, hpipes⟩ := by simpa only [Prod.mk.injEq] using hs
  exact ⟨commands, acts, s, hrun, (clean_iff_forks commands hrun).mpr hforks, hpc, hpipes⟩

/-- The second `fork` of a pipeline fails: the shell prompts with the pipe open and a
child not waited for, and the `wait` of the next command returns with that child,
while its own is running. -/
theorem not_clean_secondFork :
    ∃ commands acts s t u,
      run step (start commands) acts = some s ∧ ¬ Clean s ∧
      s.pc = .prompt ∧ s.children = [⟨1, true⟩] ∧ 3 ∈ s.fds ∧ 4 ∈ s.fds ∧
      run step s [.read, .fork (some 2)] = some t ∧ t.pc = .wait 2 ∧
      run step t [.reap 1] = some u ∧ u.pc = .prompt ∧ u.children = [⟨2, false⟩] := by
  let commands : List Dispatch := [.pipeCommand "ls|wc".toList 2, .simpleCommand "ls".toList]
  let acts : List Action := [.read, .pipe (some (3, 4)), .fork (some 1), .fork none, .exit 1]
  have hfirst : (run step (start commands) acts).map
      (fun s => (s.pc, s.children, decide (3 ∈ s.fds), decide (4 ∈ s.fds))) =
      some (.prompt, [⟨1, true⟩], true, true) := by decide
  have hsecond : ((run step (start commands) acts).bind fun s =>
      run step s [.read, .fork (some 2)]).map (fun t => t.pc) = some (.wait 2) := by decide
  have hthird : (((run step (start commands) acts).bind fun s =>
      run step s [.read, .fork (some 2)]).bind fun t => run step t [.reap 1]).map
      (fun u => (u.pc, u.children)) = some (.prompt, [⟨2, false⟩]) := by decide
  obtain ⟨s, hs, hfirst⟩ := Option.map_eq_some_iff.mp hfirst
  rw [hs, Option.bind_some] at hsecond hthird
  obtain ⟨t, ht, hsecond⟩ := Option.map_eq_some_iff.mp hsecond
  rw [ht, Option.bind_some] at hthird
  obtain ⟨u, hu, hthird⟩ := Option.map_eq_some_iff.mp hthird
  obtain ⟨hpc, hchildren, hread, hwrite⟩ := by
    simpa only [Prod.mk.injEq, decide_eq_true_eq] using hfirst
  obtain ⟨hlast, hown⟩ := by simpa only [Prod.mk.injEq] using hthird
  have hnot : ¬ Clean s := fun hclean => hclean.closed hpc 3 hread
  exact ⟨commands, acts, s, t, u, hs, hnot, hpc, hchildren, hread, hwrite, ht, hsecond, hu,
    hlast, hown⟩

end UnixLessons.Shell

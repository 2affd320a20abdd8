import Mathlib.Data.List.Basic

/-!
# Runs of a labelled step function

A program whose next move depends on the outside (the scheduler, the kernel, the
user) is a partial function from a state and an action to the next state. An
action that is not enabled has no next state, so a run is a list of actions each
of which is enabled when its turn comes.

Invariants are proved once for a single step and transported to whole runs by
the rules of this file. `Along` restricts a run to the steps that meet a
condition, for the properties that hold only of such runs.
-/

namespace UnixLessons.Transition

variable {σ α : Type*} {step : σ → α → Option σ} {init : σ → Prop}
variable {s t u : σ} {a : α} {as bs : List α}

/-- The state after the actions `as`, if each is enabled when its turn comes. -/
def run (step : σ → α → Option σ) : σ → List α → Option σ
  | s, [] => some s
  | s, a :: as => (step s a).bind fun t => run step t as

theorem run_cons_eq_some :
    run step s (a :: as) = some u ↔ ∃ t, step s a = some t ∧ run step t as = some u := by
  simp [run, Option.bind_eq_some_iff]

theorem run_singleton : run step s [a] = step s a := by
  simp [run]

theorem run_append :
    run step s (as ++ bs) = (run step s as).bind fun t => run step t bs := by
  induction as generalizing s with
  | nil => rfl
  | cons a as ih =>
    simp only [List.cons_append, run]
    cases step s a with
    | none => rfl
    | some t => exact ih

theorem run_append_eq_some :
    run step s (as ++ bs) = some u ↔
      ∃ t, run step s as = some t ∧ run step t bs = some u := by
  rw [run_append, Option.bind_eq_some_iff]

/-- A run and another one that starts from what the first has left. -/
theorem exists_of_run_run {β : Type*} {f : σ → σ} {g : σ → β} {b : β}
    (h : ((run step s as).bind fun t => run step (f t) bs).map g = some b) :
    ∃ t u, run step s as = some t ∧ run step (f t) bs = some u ∧ g u = b := by
  obtain ⟨u, hu, hg⟩ := Option.map_eq_some_iff.mp h
  obtain ⟨t, hfirst, hsecond⟩ := Option.bind_eq_some_iff.mp hu
  exact ⟨t, u, hfirst, hsecond, hg⟩

/-- A state some run leads to from an initial state. -/
def Reachable (step : σ → α → Option σ) (init : σ → Prop) (s : σ) : Prop :=
  ∃ s₀ as, init s₀ ∧ run step s₀ as = some s

theorem Reachable.of_run (h : init s) (hrun : run step s as = some t) :
    Reachable step init t :=
  ⟨s, as, h, hrun⟩

theorem Reachable.run (h : Reachable step init s) (hrun : run step s as = some t) :
    Reachable step init t := by
  obtain ⟨s₀, bs, hinit, hbs⟩ := h
  exact ⟨s₀, bs ++ as, hinit, run_append_eq_some.mpr ⟨s, hbs, hrun⟩⟩

theorem Reachable.next (h : Reachable step init s) (hstep : step s a = some t) :
    Reachable step init t :=
  h.run (run_singleton.trans hstep)

/-! ### Invariants -/

/-- A property no step can break. -/
def Preserved (step : σ → α → Option σ) (inv : σ → Prop) : Prop :=
  ∀ ⦃s a t⦄, inv s → step s a = some t → inv t

theorem Preserved.run {inv : σ → Prop} (h : Preserved step inv) (hs : inv s)
    (hrun : run step s as = some t) : inv t := by
  induction as generalizing s with
  | nil => exact Option.some.inj hrun ▸ hs
  | cons a as ih =>
    obtain ⟨u, hstep, hrest⟩ := run_cons_eq_some.mp hrun
    exact ih (h hs hstep) hrest

/-- An invariant: it holds initially and no step breaks it. -/
theorem Preserved.reachable {inv : σ → Prop} (h : Preserved step inv)
    (hinit : ∀ s, init s → inv s) (hs : Reachable step init s) : inv s := by
  obtain ⟨s₀, as, h₀, hrun⟩ := hs
  exact h.run (hinit s₀ h₀) hrun

/-! ### Runs whose steps meet a condition -/

/-- Every step of the run meets `cond` in the state it is taken from. -/
def Along (step : σ → α → Option σ) (cond : σ → α → Prop) : σ → List α → Prop
  | _, [] => True
  | s, a :: as => cond s a ∧
    match step s a with
    | some t => Along step cond t as
    | none => True

theorem along_cons_of_step {cond : σ → α → Prop} (h : step s a = some t) :
    Along step cond s (a :: as) ↔ cond s a ∧ Along step cond t as := by
  simp [Along, h]

/-- Actions that meet the condition in every state. -/
theorem Along.of_forall {cond : σ → α → Prop} (h : ∀ a ∈ as, ∀ s, cond s a) :
    Along step cond s as := by
  induction as generalizing s with
  | nil => trivial
  | cons a as ih =>
    refine ⟨h a (by simp) s, ?_⟩
    split
    · exact ih fun b hb => h b (List.mem_cons_of_mem a hb)
    · trivial

instance Along.decidable (cond : σ → α → Prop) [∀ s a, Decidable (cond s a)] :
    ∀ s as, Decidable (Along step cond s as)
  | _, [] => isTrue trivial
  | s, a :: as =>
    match h : step s a with
    | some t =>
      have := Along.decidable cond t as
      decidable_of_iff _ (along_cons_of_step h).symm
    | none => decidable_of_iff (cond s a) (by simp [Along, h])

/-- An invariant of the runs whose steps meet a condition. -/
theorem Along.run {cond : σ → α → Prop} {inv : σ → Prop}
    (hstep : ∀ ⦃s a t⦄, inv s → cond s a → step s a = some t → inv t)
    (hs : inv s) (hcond : Along step cond s as) (hrun : Transition.run step s as = some t) :
    inv t := by
  induction as generalizing s with
  | nil => exact Option.some.inj hrun ▸ hs
  | cons a as ih =>
    obtain ⟨u, hu, hrest⟩ := run_cons_eq_some.mp hrun
    obtain ⟨hfirst, hafter⟩ := (along_cons_of_step hu).mp hcond
    exact ih (hstep hs hfirst hu) hafter hrest

theorem Along.append {cond : σ → α → Prop} (has : Along step cond s as)
    (hrun : Transition.run step s as = some t) (hbs : Along step cond t bs) :
    Along step cond s (as ++ bs) := by
  induction as generalizing s with
  | nil =>
    rw [Option.some.inj hrun]
    exact hbs
  | cons a as ih =>
    obtain ⟨u, hu, hrest⟩ := run_cons_eq_some.mp hrun
    obtain ⟨hfirst, hafter⟩ := (along_cons_of_step hu).mp has
    exact (along_cons_of_step hu).mpr ⟨hfirst, ih hafter hrest⟩

theorem Along.left {cond : σ → α → Prop} (h : Along step cond s (as ++ bs)) :
    Along step cond s as := by
  induction as generalizing s with
  | nil => trivial
  | cons a as ih =>
    obtain ⟨hfirst, hafter⟩ := h
    refine ⟨hfirst, ?_⟩
    split
    · rename_i u hu
      rw [hu] at hafter
      exact ih hafter
    · trivial

theorem Along.and {cond cond' : σ → α → Prop} (h : Along step cond s as)
    (h' : Along step cond' s as) : Along step (fun s a => cond s a ∧ cond' s a) s as := by
  induction as generalizing s with
  | nil => trivial
  | cons a as ih =>
    cases hstep : step s a with
    | none => exact ⟨⟨h.1, h'.1⟩, by simp [hstep]⟩
    | some t =>
      rw [along_cons_of_step hstep] at h h' ⊢
      exact ⟨⟨h.1, h'.1⟩, ih h.2 h'.2⟩

/-- Some run whose steps meet the condition leads from one state to the other. -/
def Leads (step : σ → α → Option σ) (cond : σ → α → Prop) (s t : σ) : Prop :=
  ∃ as, Transition.run step s as = some t ∧ Along step cond s as

namespace Leads

variable {cond : σ → α → Prop}

theorem refl : Leads step cond s s := ⟨[], rfl, trivial⟩

theorem trans (h : Leads step cond s t) (h' : Leads step cond t u) : Leads step cond s u := by
  obtain ⟨as, hrun, halong⟩ := h
  obtain ⟨bs, hrun', halong'⟩ := h'
  exact ⟨as ++ bs, run_append_eq_some.mpr ⟨t, hrun, hrun'⟩, halong.append hrun halong'⟩

theorem of_step (hcond : cond s a) (hstep : step s a = some t) : Leads step cond s t :=
  ⟨[a], run_singleton.trans hstep, (along_cons_of_step hstep).mpr ⟨hcond, trivial⟩⟩

theorem next (h : Leads step cond s t) (hcond : cond t a) (hstep : step t a = some u) :
    Leads step cond s u :=
  h.trans (.of_step hcond hstep)

theorem keeps {inv : σ → Prop}
    (hstep : ∀ ⦃s a t⦄, inv s → cond s a → step s a = some t → inv t) (hs : inv s)
    (h : Leads step cond s t) : inv t := by
  obtain ⟨as, hrun, halong⟩ := h
  exact halong.run hstep hs hrun

end Leads

/-- A property that a step keeps exactly if it meets a condition is there at the end
of a run exactly if it was there at the start and all steps met the condition. -/
theorem along_iff {cond : σ → α → Prop} {inv prop : σ → Prop}
    (hstep : ∀ ⦃s a t⦄, inv s → step s a = some t → inv t ∧ (prop t ↔ prop s ∧ cond s a))
    (hs : inv s) (hrun : Transition.run step s as = some t) :
    prop t ↔ prop s ∧ Along step cond s as := by
  induction as generalizing s with
  | nil =>
    rw [Option.some.inj hrun]
    simp [Along]
  | cons a as ih =>
    obtain ⟨u, hu, hrest⟩ := run_cons_eq_some.mp hrun
    obtain ⟨hinv, hiff⟩ := hstep hs hu
    rw [ih hinv hrest, hiff, along_cons_of_step hu, and_assoc]

/-- A property that an invariant gives, and that the first step without the condition
breaks: it holds in all states of a run exactly if all steps met the condition. -/
theorem forall_states_iff {cond : σ → α → Prop} {inv prop : σ → Prop}
    (hprop : ∀ ⦃s⦄, inv s → prop s)
    (hkeeps : ∀ ⦃s a t⦄, inv s → cond s a → step s a = some t → inv t)
    (hbreaks : ∀ ⦃s a t⦄, inv s → ¬ cond s a → step s a = some t → ¬ prop t)
    (hs : inv s) (hrun : Transition.run step s as = some t) :
    (∀ bs u, bs <+: as → Transition.run step s bs = some u → prop u) ↔ Along step cond s as := by
  constructor
  · intro hall
    induction as generalizing s with
    | nil => trivial
    | cons a as ih =>
      obtain ⟨u, hu, hrest⟩ := run_cons_eq_some.mp hrun
      have hcond : cond s a := by
        by_contra hnot
        refine hbreaks hs hnot hu (hall [a] u ?_ (run_singleton.trans hu))
        exact List.cons_prefix_cons.mpr ⟨rfl, List.nil_prefix⟩
      refine (along_cons_of_step hu).mpr ⟨hcond, ih (hkeeps hs hcond hu) hrest ?_⟩
      intro bs v hbs hv
      exact hall (a :: bs) v (List.cons_prefix_cons.mpr ⟨rfl, hbs⟩)
        (run_cons_eq_some.mpr ⟨u, hu, hv⟩)
  · rintro halong bs u ⟨rest, rfl⟩ hu
    exact hprop (Along.run hkeeps hs halong.left hu)

end UnixLessons.Transition

import UnixLessons.Processes.Joining

/-!
# Whose lines come first

A process that prints a line when it has waited for all its children prints it after
everything they print, in every order of steps. Such lines are called late; the statuses
are late in any case.

## Main result

* `Family.Ordered.of_run`: nobody prints after a late line of its parent
-/

namespace UnixLessons.ForkJoin

open Transition

variable {τ : Type*} {whole : Prop} {program child rest : Script τ} {s t : Family τ}
  {p q : Process τ} {k c n : ℕ} {a : Action}

/-- A status, or a line that is meant to come after those of the children. -/
def Line.IsLate (late : τ → Prop) : Line τ → Prop
  | .text x => late x
  | .status _ => True

/-- Late lines are printed when all children have been waited for, of which `n` have been forked
so far. -/
def Script.PrintsLate (late : τ → Prop) : Script τ → ℕ → Prop
  | .exit _, _ => True
  | .print text rest, n => (late text → n = 0 ∧ rest.forks = []) ∧ rest.PrintsLate late n
  | .printStatus _ rest, n => (n = 0 ∧ rest.forks = []) ∧ rest.PrintsLate late n
  | .fork child rest, n => child.PrintsLate late 0 ∧ rest.PrintsLate late (n + 1)
  | .wait rest, n => rest.PrintsLate late (n - 1)

variable {late : τ → Prop}

theorem Script.PrintsLate.mono {script : Script τ} {m : ℕ} (h : script.PrintsLate late n)
    (hle : m ≤ n) : script.PrintsLate late m := by
  induction script generalizing n m with
  | exit _ => trivial
  | print _ _ ih =>
    exact ⟨fun hlate => ⟨by have := (h.1 hlate).1; omega, (h.1 hlate).2⟩, ih h.2 hle⟩
  | printStatus _ _ ih => exact ⟨⟨by have := h.1.1; omega, h.1.2⟩, ih h.2 hle⟩
  | fork _ _ _ ih => exact ⟨h.1, ih h.2 (Nat.succ_le_succ hle)⟩
  | wait _ ih => exact ih h (Nat.sub_le_sub_right hle 1)

namespace Family

/-- A process that has printed a late line has no children left and will not have more, and
nobody has printed anything after a late line of its parent. -/
structure Ordered (late : τ → Prop) (s : Family τ) : Prop where
  later : ∀ ⦃k⦄ ⦃p : Process τ⦄, s.procs[k]? = some p → p.script.PrintsLate late (s.opened k)
  quiet : ∀ e ∈ s.out, e.line.IsLate late → s.opened e.pid = 0 ∧
    ∀ p, s.procs[e.pid]? = some p → p.script.forks = []
  pairwise : s.out.Pairwise fun e e' => e.line.IsLate late → e'.ppid ≠ some e.pid

theorem opened_set (hp : s.procs[k]? = some p) (hsame : SameChild p q) (j : ℕ) :
    (s.set k q).opened j = s.opened j :=
  congrArg Record.opened (record_set hp hsame j)

/-- A process changes its script, as its children allow. -/
theorem Ordered.set (h : s.Ordered late) (hp : s.procs[k]? = some p) (hsame : SameChild p q)
    (hlater : q.script.PrintsLate late (s.opened k))
    (hforks : p.script.forks = [] → q.script.forks = []) : (s.set k q).Ordered late := by
  refine ⟨fun j x hx => ?_, fun e he hlate => ?_, h.pairwise⟩
  · rw [opened_set hp hsame]
    rw [Family.set, getElem?_set_self hp] at hx
    split at hx
    · rename_i hkj
      obtain rfl := Option.some.inj hx
      rwa [← hkj]
    · exact h.later hx
  · obtain ⟨hopened, hquiet⟩ := h.quiet e he hlate
    rw [opened_set hp hsame]
    refine ⟨hopened, fun x hx => ?_⟩
    rw [Family.set, getElem?_set_self hp] at hx
    split at hx
    · rename_i hke
      obtain rfl := Option.some.inj hx
      exact hforks (hquiet p (hke ▸ hp))
    · exact hquiet x hx

/-- A line is printed. Nobody has been forked by a process that has printed a late line. -/
theorem Ordered.print (h : s.Ordered late) (hok : s.Ok program whole)
    (hp : s.procs[k]? = some p) (hlife : p.life = .live) {x : Line τ}
    (hforks : p.script.forks = rest.forks) (hlater : rest.PrintsLate late (s.opened k))
    (hx : x.IsLate late → s.opened k = 0 ∧ rest.forks = []) :
    (s.print k p x rest).Ordered late := by
  have hsame := sameChild_script p rest p.statuses
  have hset : (s.set k { p with script := rest }).Ordered late :=
    h.set hp hsame hlater fun hnil => hforks ▸ hnil
  refine ⟨hset.later, fun e he hlate => ?_, List.pairwise_append.mpr ⟨h.pairwise, ?_, ?_⟩⟩
  · rcases List.mem_append.mp he with he | he
    · exact hset.quiet e he hlate
    · obtain rfl := List.mem_singleton.mp he
      obtain ⟨hopened, hnil⟩ := hx hlate
      refine ⟨(opened_set hp hsame k).trans hopened, fun y hy => ?_⟩
      obtain rfl : { p with script := rest } = y :=
        Option.some.inj (((getElem?_set_self hp _ k).trans (if_pos rfl)).symm.trans hy)
      exact hnil
  · exact List.pairwise_singleton _ _
  · intro e he e' he' hlate
    obtain rfl := List.mem_singleton.mp he'
    intro hppid
    have hparent : p.parent = some e.pid := (hok.getppid_eq hp hlife).symm.trans hppid
    have hopen : p.IsOpen e.pid = true := by simp [Process.IsOpen, hparent, hlife]
    exact opened_ne_zero hp hopen (h.quiet e he hlate).1

theorem Ordered.fork (h : s.Ordered late) (hok : s.Ok program whole) (hp : s.procs[k]? = some p)
    (hscript : p.script = .fork child rest) :
    ({ s.set k { p with script := rest } with
      procs := (s.set k { p with script := rest }).procs ++ [.init (some k) child] } :
        Family τ).Ordered late := by
  have hsame := sameChild_script p rest p.statuses
  have hlt : k < s.procs.length := (List.getElem?_eq_some_iff.mp hp).1
  have hopened : ∀ j, ({ s.set k { p with script := rest } with
      procs := (s.set k { p with script := rest }).procs ++ [.init (some k) child] } :
        Family τ).opened j = if k = j then s.opened j + 1 else s.opened j := by
    intro j
    have hrecord := congrArg Record.opened
      (record_fork (s.set k { p with script := rest }) k child j)
    rw [apply_ite Record.opened] at hrecord
    rw [← opened_set hp hsame j]
    exact hrecord
  have hscripts := h.later hp
  rw [hscript] at hscripts
  have hlength : (s.set k { p with script := rest }).procs.length = s.procs.length :=
    List.length_set
  refine ⟨fun j x hx => ?_, fun e he hlate => ?_, h.pairwise⟩
  · rw [hopened]
    rcases getElem?_concat_eq_some hx with hx | ⟨rfl, rfl⟩
    · rw [Family.set, getElem?_set_self hp] at hx
      split at hx
      · rename_i hkj
        obtain rfl := Option.some.inj hx
        rw [if_pos hkj, ← hkj]
        exact hscripts.2
      · rename_i hkj
        rw [if_neg hkj]
        exact h.later hx
    · rw [hlength, if_neg hlt.ne]
      have hrecord := congrArg Record.opened hok.toTree.record_length
      rw [show s.opened s.procs.length = 0 from hrecord]
      exact hscripts.1
  · obtain ⟨hzero, hquiet⟩ := h.quiet e he hlate
    -- The process that forks has not printed such a line.
    have hke : k ≠ e.pid := by
      rintro rfl
      have hnil := hquiet p hp
      rw [hscript, Script.forks] at hnil
      cases hnil
    rw [hopened, if_neg hke]
    refine ⟨hzero, fun x hx => ?_⟩
    rcases getElem?_concat_eq_some hx with hx | ⟨hpid, rfl⟩
    · rw [Family.set, getElem?_set_self hp, if_neg hke] at hx
      exact hquiet x hx
    · obtain ⟨y, hy, -⟩ := hok.ppid e he
      have hylt := (List.getElem?_eq_some_iff.mp hy).1
      omega

theorem Ordered.reap (h : s.Ordered late) (hp : s.procs[k]? = some p) (hlife : p.life = .live)
    (hscript : p.script = .wait rest) (hq : s.procs[c]? = some q) (hparent : q.parent = some k)
    (hzombie : q.life = .zombie n) :
    ((s.set k { p with script := rest, statuses := p.statuses ++ [some n] }).set c
      { q with life := .reaped n }).Ordered late := by
  have hsame := sameChild_script p rest (p.statuses ++ [some n])
  have hck : k ≠ c := by
    rintro rfl
    rw [Option.some.inj (hp.symm.trans hq), hzombie] at hlife
    cases hlife
  have hq' : (s.set k { p with script := rest, statuses := p.statuses ++ [some n] }).procs[c]? =
      some q := by
    rw [Family.set, getElem?_set_self hp, if_neg hck, hq]
  have hopened : ∀ j, ((s.set k { p with
      script := rest, statuses := p.statuses ++ [some n] }).set c
        { q with life := .reaped n }).opened j =
          if k = j then s.opened j - 1 else s.opened j := by
    intro j
    have hrecord := congrArg Record.opened (record_reap hq' hparent hzombie j)
    rw [apply_ite Record.opened] at hrecord
    rw [← opened_set hp hsame j]
    exact hrecord
  have hscripts := h.later hp
  rw [hscript] at hscripts
  refine ⟨fun j x hx => ?_, fun e he hlate => ?_, h.pairwise⟩
  · rw [hopened]
    rw [Family.set, getElem?_set_self hq'] at hx
    split at hx
    · rename_i hcj
      obtain rfl := Option.some.inj hx
      have hlater := h.later hq
      rw [if_neg (hcj ▸ hck), ← hcj]
      exact hlater
    · rw [Family.set, getElem?_set_self hp] at hx
      split at hx
      · rename_i hkj
        obtain rfl := Option.some.inj hx
        rw [if_pos hkj, ← hkj]
        exact hscripts
      · rename_i hkj
        rw [if_neg hkj]
        exact h.later hx
  · obtain ⟨hzero, hquiet⟩ := h.quiet e he hlate
    rw [hopened]
    refine ⟨by split <;> omega, fun x hx => ?_⟩
    rw [Family.set, getElem?_set_self hq'] at hx
    split at hx
    · rename_i hce
      obtain rfl := Option.some.inj hx
      exact hquiet q (hce ▸ hq)
    · rw [Family.set, getElem?_set_self hp] at hx
      split at hx
      · rename_i hke
        obtain rfl := Option.some.inj hx
        have hnil := hquiet p (hke ▸ hp)
        rw [hscript] at hnil
        exact hnil
      · exact hquiet x hx

theorem Ordered.init (hlater : program.PrintsLate late 0) : (Family.init program).Ordered late where
  later k p hp := by
    cases k with
    | zero =>
      obtain rfl := Option.some.inj hp
      exact hlater
    | succ k => cases hp
  quiet e he := by cases he
  pairwise := List.Pairwise.nil

theorem Ordered.step (h : s.Ordered late) (hok : s.Ok program whole)
    (hstep : ForkJoin.step s a = some t) : t.Ordered late := by
  cases move_of_step hstep with
  | exit hp hlife hscript =>
    have hlater := h.later hp
    exact h.set hp (sameChild_zombie hlife _) hlater id
  | print hp hlife hscript =>
    have hlater := h.later hp
    rw [hscript] at hlater
    exact h.print hok hp hlife (by rw [hscript]; rfl) hlater.2 hlater.1
  | printStatus hp hlife hscript =>
    have hlater := h.later hp
    rw [hscript] at hlater
    exact h.print hok hp hlife (by rw [hscript]; rfl) hlater.2 fun _ => hlater.1
  | fork hp hlife hscript => exact h.fork hok hp hscript
  | waitFails hp hlife hscript hopened =>
    have hlater := h.later hp
    rw [hscript, hopened] at hlater
    refine h.set hp (sameChild_script _ _ _) ?_ fun hnil => ?_
    · rw [hopened]
      exact hlater
    · rw [hscript] at hnil
      exact hnil
  | forkFails hp hlife hscript =>
    have hlater := h.later hp
    rw [hscript] at hlater
    refine h.set hp (sameChild_script _ _ _) (hlater.2.mono (Nat.le_succ _)) fun hnil => ?_
    rw [hscript] at hnil
    cases hnil
  | reap hp hlife hscript hq hparent hzombie => exact h.reap hp hlife hscript hq hparent hzombie

/-- What holds of the output of any run. -/
theorem Ordered.of_run (hjoined : program.Joined 0) (hreads : program.Reads 0)
    (hlater : program.PrintsLate late 0) {as : List Action}
    (hrun : run ForkJoin.step (Family.init program) as = some s) : s.Ordered late := by
  have hkeeps : Preserved ForkJoin.step fun s : Family τ => s.Ok program False ∧ s.Ordered late :=
    fun _ _ _ h hstep => ⟨h.1.step False.elim hstep, h.2.step h.1 hstep⟩
  exact (hkeeps.run ⟨Ok.init hjoined hreads, Ordered.init hlater⟩ hrun).2

end Family

end UnixLessons.ForkJoin

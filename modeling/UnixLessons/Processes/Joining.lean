import Mathlib.Algebra.Order.Group.Multiset
import Mathlib.Data.List.ReduceOption
import UnixLessons.Processes.ForkJoin
import UnixLessons.Transition.Completion

/-!
# Every process waits for its children

If a program is joined, all its processes outlive their children, in every order of steps
and with every outcome of the calls of `fork`. So none of them is orphaned, a status that
is printed is the exit code of a child, and when the first process has ended all others
have been waited for.

## Main results

* `Family.Ok.of_run`: what each process has printed, forked and collected so far
* `Family.Ok.reaped`: when the first process has ended, all others have been waited for
* `Family.Ok.printed_eq`, `Family.Ok.statuses_eq`: the output and the statuses in the end
* `Family.Ok.ended_of_stuck`, `Family.size_lt`: all runs come to that end
-/

namespace UnixLessons.ForkJoin

open Transition

variable {τ : Type*} {whole : Prop} {program child rest : Script τ} {s t : Family τ}
  {p q : Process τ} {i j k c n : ℕ} {a : Action}

/-! ### What is known of a process -/

/-- What happened to a process so far: its open children, what it printed, what it forked
children for, and the codes of those it has waited for. -/
structure Record (τ : Type*) where
  opened : ℕ
  printed : List (Line τ)
  forked : List (Script τ)
  collected : Multiset ℕ

/-- The code of a child of `k` that has been waited for. -/
def Process.collected (p : Process τ) (k : ℕ) : Option ℕ :=
  if p.parent = some k then
    match p.life with
    | .reaped code => some code
    | _ => none
  else none

/-- What a child of `k` was forked for. -/
def Process.forkedBy (p : Process τ) (k : ℕ) : Option (Script τ) :=
  if p.parent = some k then some p.program else none

namespace Family

/-- What the process `k` has printed. -/
def printed (s : Family τ) (k : ℕ) : List (Line τ) :=
  s.out.filterMap fun e => if e.pid = k then some e.line else none

def forked (s : Family τ) (k : ℕ) : List (Script τ) := s.procs.filterMap (·.forkedBy k)

def collected (s : Family τ) (k : ℕ) : List ℕ := s.procs.filterMap (·.collected k)

def record (s : Family τ) (k : ℕ) : Record τ :=
  ⟨s.opened k, s.printed k, s.forked k, s.collected k⟩

end Family

/-- A process is where its program says, given what happened to it. The condition `whole`
stands for runs in which no `fork` fails. -/
structure Process.Ok (whole : Prop) (p : Process τ) (r : Record τ) : Prop where
  joined : p.script.Joined r.opened
  reads : p.script.Reads p.statuses.length
  lines : ∀ later, r.printed ++ p.script.lines (p.statuses ++ later) =
    p.program.lines (p.statuses ++ later)
  waits : p.statuses.length + p.script.waits = p.program.waits
  code : p.script.code = p.program.code
  ended : ∀ code, p.life = .zombie code ∨ p.life = .reaped code → p.script = .exit code
  forks : (r.forked ++ p.script.forks).Sublist p.program.forks
  whole : whole → r.forked ++ p.script.forks = p.program.forks
  statuses : (p.statuses.reduceOption : Multiset ℕ) = r.collected

/-- The processes are those of the program, each forked by an earlier one, and each of them
has found its parent alive whenever it printed something. -/
structure Family.Tree (program : Script τ) (s : Family τ) : Prop where
  root : ∃ p, s.procs[0]? = some p ∧ p.parent = none ∧ p.program = program
  parent : ∀ ⦃k⦄ ⦃p : Process τ⦄, s.procs[k]? = some p → k ≠ 0 → ∃ j < k, p.parent = some j
  ppid : ∀ e ∈ s.out, ∃ p, s.procs[e.pid]? = some p ∧ e.ppid = p.parent

/-- The invariant of a family that runs the program. -/
structure Family.Ok (program : Script τ) (whole : Prop) (s : Family τ) : Prop
    extends s.Tree program where
  proc : ∀ ⦃k⦄ ⦃p : Process τ⦄, s.procs[k]? = some p → p.Ok whole (s.record k)

/-! ### What a step does -/

namespace Family

theorem of_live (h : s.live k = some p) : s.procs[k]? = some p ∧ p.life = .live := by
  obtain ⟨hp, hlife⟩ := Option.filter_eq_some_iff.mp h
  exact ⟨hp, by simpa using hlife⟩

/-- The steps, each with its premises. -/
inductive Move (s : Family τ) : Action → Family τ → Prop
  | exit {k n : ℕ} {p : Process τ} (hp : s.procs[k]? = some p) (hlife : p.life = .live)
      (hscript : p.script = .exit n) :
      Move s (.go k) (s.set k { p with life := .zombie n })
  | print {k : ℕ} {p : Process τ} {text : τ} {rest : Script τ} (hp : s.procs[k]? = some p)
      (hlife : p.life = .live) (hscript : p.script = .print text rest) :
      Move s (.go k) (s.print k p (.text text) rest)
  | printStatus {k i : ℕ} {p : Process τ} {rest : Script τ} (hp : s.procs[k]? = some p)
      (hlife : p.life = .live) (hscript : p.script = .printStatus i rest) :
      Move s (.go k) (s.print k p (.status p.statuses[i]?.join) rest)
  | fork {k : ℕ} {p : Process τ} {child rest : Script τ} (hp : s.procs[k]? = some p)
      (hlife : p.life = .live) (hscript : p.script = .fork child rest) :
      Move s (.go k) { s.set k { p with script := rest } with
        procs := (s.set k { p with script := rest }).procs ++ [.init (some k) child] }
  | waitFails {k : ℕ} {p : Process τ} {rest : Script τ} (hp : s.procs[k]? = some p)
      (hlife : p.life = .live) (hscript : p.script = .wait rest) (hopened : s.opened k = 0) :
      Move s (.go k) (s.set k { p with script := rest, statuses := p.statuses ++ [none] })
  | forkFails {k : ℕ} {p : Process τ} {child rest : Script τ} (hp : s.procs[k]? = some p)
      (hlife : p.life = .live) (hscript : p.script = .fork child rest) :
      Move s (.forkFails k) (s.set k { p with script := rest })
  | reap {k c n : ℕ} {p q : Process τ} {rest : Script τ} (hp : s.procs[k]? = some p)
      (hlife : p.life = .live) (hscript : p.script = .wait rest) (hq : s.procs[c]? = some q)
      (hparent : q.parent = some k) (hzombie : q.life = .zombie n) :
      Move s (.reap k c) ((s.set k { p with
        script := rest, statuses := p.statuses ++ [some n] }).set c { q with life := .reaped n })

theorem move_of_step (hstep : ForkJoin.step s a = some t) : s.Move a t := by
  cases a with
  | go k =>
    obtain ⟨p, hlive, hstep⟩ := Option.bind_eq_some_iff.mp hstep
    obtain ⟨hp, hlife⟩ := of_live hlive
    rw [advance] at hstep
    split at hstep
    · rename_i hscript
      cases hstep
      exact .exit hp hlife hscript
    · rename_i hscript
      cases hstep
      exact .print hp hlife hscript
    · rename_i hscript
      cases hstep
      exact .printStatus hp hlife hscript
    · rename_i hscript
      cases hstep
      exact .fork hp hlife hscript
    · rename_i hscript
      split at hstep
      · rename_i hopened
        cases hstep
        exact .waitFails hp hlife hscript hopened
      · cases hstep
  | forkFails k =>
    obtain ⟨p, hlive, hstep⟩ := Option.bind_eq_some_iff.mp hstep
    obtain ⟨hp, hlife⟩ := of_live hlive
    rw [forkFails] at hstep
    split at hstep
    · rename_i hscript
      cases hstep
      exact .forkFails hp hlife hscript
    · cases hstep
  | reap k c =>
    obtain ⟨p, hlive, hstep⟩ := Option.bind_eq_some_iff.mp hstep
    obtain ⟨hp, hlife⟩ := of_live hlive
    rw [reap] at hstep
    split at hstep
    · rename_i hscript hq
      split at hstep
      · rename_i hzombie
        split at hstep
        · rename_i hparent
          cases hstep
          exact .reap hp hlife hscript hq hparent hzombie
        · cases hstep
      · cases hstep
    · cases hstep

end Family

/-! ### Lists in which one entry is replaced or added -/

section Replaced

variable {α β : Type*} {l : List α} {x y : α} {f : α → Option β} {b : β}

theorem filterMap_set (hx : l[i]? = some x) (h : f y = f x) :
    (l.set i y).filterMap f = l.filterMap f := by
  induction l generalizing i with
  | nil => rfl
  | cons z l ih =>
    cases i with
    | zero =>
      obtain rfl : z = x := Option.some.inj hx
      simp only [List.set_cons_zero, List.filterMap_cons, h]
    | succ i => simp only [List.set_cons_succ, List.filterMap_cons, ih hx]

theorem filterMap_set_of_none (hx : l[i]? = some x) (hnone : f x = none) (hy : f y = some b) :
    ((l.set i y).filterMap f : Multiset β) = b ::ₘ l.filterMap f := by
  induction l generalizing i with
  | nil => cases hx
  | cons z l ih =>
    cases i with
    | zero =>
      obtain rfl : z = x := Option.some.inj hx
      rw [List.set_cons_zero, List.filterMap_cons_some hy, List.filterMap_cons_none hnone]
      rfl
    | succ i =>
      rw [List.set_cons_succ, List.filterMap_cons, List.filterMap_cons]
      cases hz : f z with
      | none => exact ih hx
      | some d =>
        simp only [← Multiset.cons_coe]
        rw [ih hx, Multiset.cons_swap]

theorem sum_set {M : Type*} [AddCommMonoid M] {g : α → M} (hx : l[i]? = some x) :
    ((l.set i y).map g).sum + g x = (l.map g).sum + g y := by
  induction l generalizing i with
  | nil => cases hx
  | cons z l ih =>
    cases i with
    | zero =>
      obtain rfl : z = x := Option.some.inj hx
      simp only [List.set_cons_zero, List.map_cons, List.sum_cons]
      rw [add_comm, add_comm (g y), add_right_comm, add_assoc, add_comm (List.map g l).sum,
        ← add_assoc, add_comm (g z)]
    | succ i =>
      simp only [List.set_cons_succ, List.map_cons, List.sum_cons]
      rw [add_assoc, ih hx, add_assoc]

theorem getElem?_concat_eq_some (h : (l ++ [y])[i]? = some x) :
    l[i]? = some x ∨ i = l.length ∧ x = y := by
  rcases Nat.lt_or_ge i l.length with hlt | hle
  · rw [List.getElem?_append_left hlt] at h
    exact .inl h
  · rw [List.getElem?_append_right hle] at h
    obtain ⟨hzero, hx⟩ := List.getElem?_eq_some_iff.mp h
    rw [List.length_singleton] at hzero
    refine .inr ⟨by omega, ?_⟩
    rw [← hx, List.getElem_singleton]

end Replaced

/-! ### How the records change -/

/-- Whose child a process is, and what it was forked for. -/
def Process.origin (p : Process τ) : Option ℕ × Script τ := (p.parent, p.program)

/-- A process that only its own steps have changed is the same child. -/
structure SameChild (p q : Process τ) : Prop where
  parent : q.parent = p.parent
  program : q.program = p.program
  isOpen : ∀ k, q.IsOpen k = p.IsOpen k
  collected : ∀ k, q.collected k = p.collected k

theorem sameChild_script (p : Process τ) (script : Script τ) (statuses : List (Option ℕ)) :
    SameChild p { p with script, statuses } :=
  ⟨rfl, rfl, fun _ => rfl, fun _ => rfl⟩

theorem sameChild_zombie (hp : p.life = .live) (c : ℕ) :
    SameChild p { p with life := .zombie c } :=
  ⟨rfl, rfl, fun k => by simp [Process.IsOpen, hp], fun k => by simp [Process.collected, hp]⟩

theorem record_set (hp : s.procs[i]? = some p) (h : SameChild p q) (k : ℕ) :
    (s.set i q).record k = s.record k := by
  have hopened : (s.set i q).opened k = s.opened k := by
    rw [Family.opened, Family.opened, Family.set]
    have hlt := (List.getElem?_eq_some_iff.mp hp).1
    have hget : s.procs[i] = p := (List.getElem?_eq_some_iff.mp hp).2
    have hle : (if p.IsOpen k then 1 else 0) ≤ s.procs.countP (·.IsOpen k) := by
      split
      · rename_i hopen
        exact List.countP_pos_iff.mpr ⟨p, List.mem_of_getElem? hp, hopen⟩
      · exact Nat.zero_le _
    rw [List.countP_set hlt, hget, h.isOpen k]
    omega
  have hforked : (s.set i q).forked k = s.forked k :=
    filterMap_set hp (by rw [Process.forkedBy, Process.forkedBy, h.parent, h.program])
  have hcollected : (s.set i q).collected k = s.collected k :=
    filterMap_set hp (h.collected k)
  rw [Family.record, Family.record, hopened, hforked, hcollected]
  rfl

theorem record_fork (s : Family τ) (i : ℕ) (child : Script τ) (k : ℕ) :
    ({ s with procs := s.procs ++ [.init (some i) child] } : Family τ).record k =
      if i = k then
        { s.record k with
          opened := (s.record k).opened + 1, forked := (s.record k).forked ++ [child] }
      else s.record k := by
  by_cases h : i = k
  · simp [Family.record, Family.opened, Family.forked, Family.collected, Process.IsOpen,
      Process.forkedBy, Process.collected, Process.init, Family.printed, h]
  · simp [Family.record, Family.opened, Family.forked, Family.collected, Process.IsOpen,
      Process.forkedBy, Process.collected, Process.init, Family.printed, h]

/-- A child of `i` is waited for. -/
theorem record_reap (hq : s.procs[c]? = some q) (hparent : q.parent = some i)
    (hlife : q.life = .zombie n) (k : ℕ) :
    (s.set c { q with life := .reaped n }).record k =
      if i = k then
        { s.record k with
          opened := (s.record k).opened - 1, collected := n ::ₘ (s.record k).collected }
      else s.record k := by
  have hlt := (List.getElem?_eq_some_iff.mp hq).1
  have hget : s.procs[c] = q := (List.getElem?_eq_some_iff.mp hq).2
  have hforked : (s.set c { q with life := .reaped n }).forked k = s.forked k :=
    filterMap_set hq rfl
  by_cases h : i = k
  · have hopened : (s.set c { q with life := .reaped n }).opened k = s.opened k - 1 := by
      rw [Family.opened, Family.opened, Family.set, List.countP_set hlt, hget]
      simp [Process.IsOpen, hparent, hlife, h]
    have hcollected : ((s.set c { q with life := .reaped n }).collected k : Multiset ℕ) =
        n ::ₘ (s.collected k : Multiset ℕ) := by
      refine filterMap_set_of_none hq ?_ ?_
      · simp [Process.collected, hlife]
      · simp [Process.collected, hparent, h]
    rw [if_pos h, Family.record, hopened, hforked, hcollected]
    rfl
  · have hopened : (s.set c { q with life := .reaped n }).opened k = s.opened k := by
      rw [Family.opened, Family.opened, Family.set, List.countP_set hlt, hget]
      simp [Process.IsOpen, hparent, h]
    have hcollected : (s.set c { q with life := .reaped n }).collected k = s.collected k := by
      refine filterMap_set hq ?_
      simp [Process.collected, hparent, h]
    rw [if_neg h, Family.record, hopened, hforked, hcollected]
    rfl

/-! ### Steps of one process -/

theorem Script.Joined.mono {script : Script τ} {m : ℕ} (h : script.Joined n) (hle : m ≤ n) :
    script.Joined m := by
  induction script generalizing n m with
  | exit _ => exact Nat.le_zero.mp (h ▸ hle)
  | print _ _ ih => exact ih h hle
  | printStatus _ _ ih => exact ih h hle
  | fork _ _ _ ih => exact ⟨h.1, ih h.2 (Nat.succ_le_succ hle)⟩
  | wait _ ih => exact ih h (Nat.sub_le_sub_right hle 1)

namespace Process

variable {r : Record τ}

theorem Ok.init {parent : Option ℕ} (hjoined : program.Joined 0) (hreads : program.Reads 0) :
    (Process.init parent program).Ok whole ⟨0, [], [], 0⟩ where
  joined := hjoined
  reads := hreads
  lines _ := rfl
  waits := Nat.zero_add _
  code := rfl
  ended _ h := by rcases h with h | h <;> cases h
  forks := List.Sublist.refl _
  whole _ := rfl
  statuses := rfl

theorem Ok.exit (h : p.Ok whole r) (hscript : p.script = .exit n) :
    Ok whole { p with life := .zombie n } r :=
  { h with
    ended := by
      rintro c (hc | hc)
      · cases hc
        exact hscript
      · cases hc }

theorem Ok.print {text : τ} (h : p.Ok whole r) (hlife : p.life = .live)
    (hscript : p.script = .print text rest) :
    Ok whole { p with script := rest } { r with printed := r.printed ++ [.text text] } := by
  obtain ⟨joined, reads, lines, waits, code, ended, forks, hwhole, statuses⟩ := h
  simp only [hscript] at joined reads lines waits code forks hwhole
  refine ⟨joined, reads, fun later => ?_, waits, code, by simp [hlife], forks, hwhole, statuses⟩
  rw [← lines later, Script.lines, List.append_assoc, List.singleton_append]

/-- A status that is printed is one that is there to stay. -/
theorem Ok.printStatus (h : p.Ok whole r) (hlife : p.life = .live)
    (hscript : p.script = .printStatus i rest) :
    Ok whole { p with script := rest }
      { r with printed := r.printed ++ [.status p.statuses[i]?.join] } := by
  obtain ⟨joined, reads, lines, waits, code, ended, forks, hwhole, statuses⟩ := h
  simp only [hscript] at joined reads lines waits code forks hwhole
  refine ⟨joined, reads.2, fun later => ?_, waits, code, by simp [hlife], forks, hwhole, statuses⟩
  rw [← lines later, Script.lines, List.append_assoc, List.singleton_append,
    List.getElem?_append_left reads.1]

theorem Ok.fork (h : p.Ok whole r) (hlife : p.life = .live)
    (hscript : p.script = .fork child rest) :
    Ok whole { p with script := rest }
      { r with opened := r.opened + 1, forked := r.forked ++ [child] } := by
  obtain ⟨joined, reads, lines, waits, code, ended, forks, hwhole, statuses⟩ := h
  simp only [hscript] at joined reads lines waits code forks hwhole
  refine ⟨joined.2, reads.2, lines, waits, code, by simp [hlife], ?_, ?_, statuses⟩
  · rwa [List.append_assoc, List.singleton_append]
  · rwa [List.append_assoc, List.singleton_append]

theorem Ok.forkFails (h : p.Ok whole r) (hwhole : ¬ whole) (hlife : p.life = .live)
    (hscript : p.script = .fork child rest) : Ok whole { p with script := rest } r := by
  obtain ⟨joined, reads, lines, waits, code, ended, forks, -, statuses⟩ := h
  simp only [hscript] at joined reads lines waits code forks
  refine ⟨joined.2.mono (Nat.le_succ _), reads.2, lines, waits, code, by simp [hlife], ?_,
    fun h => absurd h hwhole, statuses⟩
  exact ((List.sublist_cons_self _ _).append_left _).trans forks

theorem Ok.waitFails (h : p.Ok whole r) (hlife : p.life = .live)
    (hscript : p.script = .wait rest) (hopened : r.opened = 0) :
    Ok whole { p with script := rest, statuses := p.statuses ++ [none] } r := by
  obtain ⟨joined, reads, lines, waits, code, ended, forks, hwhole, statuses⟩ := h
  simp only [hscript] at joined reads lines waits code forks hwhole
  refine ⟨?_, ?_, fun later => ?_, ?_, code, by simp [hlife], forks, hwhole, ?_⟩
  · rw [hopened] at joined ⊢
    exact joined
  · simpa [Script.Reads] using reads
  · rw [List.append_assoc]
    exact lines _
  · simp only [List.length_append, List.length_singleton]
    rw [Script.waits] at waits
    omega
  · rw [← statuses, List.reduceOption_append]
    simp

theorem Ok.reap (h : p.Ok whole r) (hlife : p.life = .live) (hscript : p.script = .wait rest) :
    Ok whole { p with script := rest, statuses := p.statuses ++ [some n] }
      { r with opened := r.opened - 1, collected := n ::ₘ r.collected } := by
  obtain ⟨joined, reads, lines, waits, code, ended, forks, hwhole, statuses⟩ := h
  simp only [hscript] at joined reads lines waits code forks hwhole
  refine ⟨joined, ?_, fun later => ?_, ?_, code, by simp [hlife], forks, hwhole, ?_⟩
  · simpa [Script.Reads] using reads
  · rw [List.append_assoc]
    exact lines _
  · simp only [List.length_append, List.length_singleton]
    rw [Script.waits] at waits
    omega
  · rw [← statuses, List.reduceOption_append, List.reduceOption_singleton]
    exact Multiset.coe_eq_coe.mpr (List.perm_append_singleton _ _)

end Process

/-! ### Steps of the family -/

namespace Family

theorem Ok.init (hjoined : program.Joined 0) (hreads : program.Reads 0) :
    (Family.init program).Ok program whole where
  root := ⟨_, rfl, rfl, rfl⟩
  parent k p hp hk := by
    obtain ⟨k, rfl⟩ := Nat.exists_eq_succ_of_ne_zero hk
    cases hp
  proc k p hp := by
    cases k with
    | zero =>
      obtain rfl := Option.some.inj hp
      exact Process.Ok.init hjoined hreads
    | succ k => cases hp
  ppid e he := by cases he

/-- A process that has open children has not ended. -/
theorem Ok.live_of_opened (h : s.Ok program whole) (hp : s.procs[k]? = some p)
    (hopened : s.opened k ≠ 0) : p.life = .live := by
  have hok := h.proc hp
  cases hlife : p.life with
  | live => rfl
  | zombie c =>
    have hjoined := hok.joined
    rw [hok.ended c (.inl hlife)] at hjoined
    exact absurd hjoined hopened
  | reaped c =>
    have hjoined := hok.joined
    rw [hok.ended c (.inr hlife)] at hjoined
    exact absurd hjoined hopened

theorem opened_ne_zero (hq : s.procs[c]? = some q) (hopen : q.IsOpen k = true) :
    s.opened k ≠ 0 :=
  (List.countP_pos_iff.mpr ⟨q, List.mem_of_getElem? hq, hopen⟩).ne'

/-- A live process is not orphaned, so it is told who its parent is. -/
theorem Ok.getppid_eq (h : s.Ok program whole) (hp : s.procs[k]? = some p)
    (hlife : p.life = .live) : s.getppid p = p.parent := by
  cases hparent : p.parent with
  | none => rw [getppid, hparent, Option.filter_none]
  | some j =>
    have hk : k ≠ 0 := by
      rintro rfl
      obtain ⟨q, hq, hnone, -⟩ := h.root
      rw [Option.some.inj (hp.symm.trans hq), hnone] at hparent
      cases hparent
    obtain ⟨i, hlt, hi⟩ := h.parent hp hk
    obtain rfl : i = j := Option.some.inj (hi.symm.trans hparent)
    have hilt : i < s.procs.length := hlt.trans (List.getElem?_eq_some_iff.mp hp).1
    have hget : s.procs[i]? = some s.procs[i] := List.getElem?_eq_getElem hilt
    have hopen : p.IsOpen i = true := by simp [Process.IsOpen, hparent, hlife]
    have hlive := h.live_of_opened hget (opened_ne_zero hp hopen)
    rw [getppid, hparent, Option.filter_eq_some_iff]
    exact ⟨rfl, by simp [hget, hlive]⟩

theorem Tree.congr (h : s.Tree program)
    (hprocs : ∀ j : ℕ, t.procs[j]?.map Process.origin = s.procs[j]?.map Process.origin)
    (hout : ∀ e ∈ t.out, e ∈ s.out ∨ ∃ p, s.procs[e.pid]? = some p ∧ e.ppid = p.parent) :
    t.Tree program := by
  have hfrom : ∀ (j : ℕ) (p : Process τ), s.procs[j]? = some p →
      ∃ q, t.procs[j]? = some q ∧ q.parent = p.parent ∧ q.program = p.program := by
    intro j p hp
    have hj := hprocs j
    rw [hp, Option.map_some, Option.map_eq_some_iff] at hj
    obtain ⟨q, hq, hpair⟩ := hj
    exact ⟨q, hq, (Prod.mk.inj hpair).1, (Prod.mk.inj hpair).2⟩
  refine ⟨?_, fun k q hq hk => ?_, fun e he => ?_⟩
  · obtain ⟨p, hp, hparent, hprogram⟩ := h.root
    obtain ⟨q, hq, hqparent, hqprogram⟩ := hfrom 0 p hp
    exact ⟨q, hq, hqparent.trans hparent, hqprogram.trans hprogram⟩
  · have hj := hprocs k
    rw [hq, Option.map_some, eq_comm, Option.map_eq_some_iff] at hj
    obtain ⟨p, hp, hpair⟩ := hj
    rw [← (Prod.mk.inj hpair).1]
    exact h.parent hp hk
  · have hold : ∃ p, s.procs[e.pid]? = some p ∧ e.ppid = p.parent :=
      (hout e he).elim (h.ppid e) id
    obtain ⟨p, hp, hppid⟩ := hold
    obtain ⟨q, hq, hparent, -⟩ := hfrom e.pid p hp
    exact ⟨q, hq, hppid.trans hparent.symm⟩

theorem getElem?_set_self (hp : s.procs[i]? = some p) (q : Process τ) (j : ℕ) :
    (s.procs.set i q)[j]? = if i = j then some q else s.procs[j]? := by
  have hlt : i < s.procs.length := (List.getElem?_eq_some_iff.mp hp).1
  rw [List.getElem?_set]
  split <;> rfl

theorem map_getElem?_set (hp : s.procs[i]? = some p) (hsame : SameChild p q) (j : ℕ) :
    (s.set i q).procs[j]?.map Process.origin = s.procs[j]?.map Process.origin := by
  rw [set, getElem?_set_self hp]
  split
  · rename_i h
    rw [← h, hp, Option.map_some, Option.map_some, Process.origin, hsame.parent, hsame.program]
    rfl
  · rfl

theorem Tree.fork (h : s.Tree program) (hk : k < s.procs.length) :
    ({ s with procs := s.procs ++ [.init (some k) child] } : Family τ).Tree program where
  root := by
    obtain ⟨p, hp, hroot⟩ := h.root
    exact ⟨p, (List.getElem?_append_left (by omega)).trans hp, hroot⟩
  parent j p hp hj := by
    rcases getElem?_concat_eq_some hp with hp | ⟨rfl, rfl⟩
    · exact h.parent hp hj
    · exact ⟨k, hk, rfl⟩
  ppid e he := by
    obtain ⟨p, hp, hppid⟩ := h.ppid e he
    have hlt := (List.getElem?_eq_some_iff.mp hp).1
    exact ⟨p, (List.getElem?_append_left hlt).trans hp, hppid⟩

/-- Nothing is known yet of a process that has not been forked. -/
theorem Tree.record_length (h : s.Tree program) :
    s.record s.procs.length = ⟨0, [], [], 0⟩ := by
  have hparent : ∀ p ∈ s.procs, p.parent ≠ some s.procs.length := by
    intro p hp hparent
    obtain ⟨k, hk⟩ := List.mem_iff_getElem?.mp hp
    have hlt : k < s.procs.length := (List.getElem?_eq_some_iff.mp hk).1
    rcases eq_or_ne k 0 with rfl | hne
    · obtain ⟨q, hq, hnone, -⟩ := h.root
      rw [Option.some.inj (hk.symm.trans hq), hnone] at hparent
      cases hparent
    · obtain ⟨j, hj, hsome⟩ := h.parent hk hne
      have heq : j = s.procs.length := Option.some.inj (hsome.symm.trans hparent)
      omega
  have hopened : s.opened s.procs.length = 0 := by
    rw [opened, List.countP_eq_zero]
    intro p hp
    simp [Process.IsOpen, hparent p hp]
  have hprinted : s.printed s.procs.length = [] := by
    rw [printed, List.filterMap_eq_nil_iff]
    intro e he
    obtain ⟨p, hp, -⟩ := h.ppid e he
    exact if_neg (List.getElem?_eq_some_iff.mp hp).1.ne
  have hforked : s.forked s.procs.length = [] := by
    rw [forked, List.filterMap_eq_nil_iff]
    intro p hp
    exact if_neg (hparent p hp)
  have hcollected : s.collected s.procs.length = [] := by
    rw [collected, List.filterMap_eq_nil_iff]
    intro p hp
    exact if_neg (hparent p hp)
  rw [record, hopened, hprinted, hforked, hcollected]
  rfl

/-- A process makes a step of its own, and prints something. -/
theorem Ok.update (h : s.Ok program whole) (hp : s.procs[i]? = some p) (hsame : SameChild p q)
    {new : List (Line τ)}
    (hok : q.Ok whole { s.record i with printed := s.printed i ++ new }) :
    ({ s.set i q with out := s.out ++ new.map fun x => ⟨i, p.parent, x⟩ } : Family τ).Ok
      program whole := by
  have hnew : ∀ k, (new.map fun x => (⟨i, p.parent, x⟩ : Entry τ)).filterMap
      (fun e => if e.pid = k then some e.line else none) = if i = k then new else [] := by
    intro k
    rw [List.filterMap_map]
    split
    · rename_i h
      simp [h]
    · rename_i h
      simp [h]
  have hrecord : ∀ k, ({ s.set i q with out := s.out ++ new.map fun x => ⟨i, p.parent, x⟩ } :
      Family τ).record k =
        { s.record k with printed := s.printed k ++ if i = k then new else [] } := by
    intro k
    have hset := record_set hp hsame k
    simp only [record, Record.mk.injEq] at hset ⊢
    refine ⟨hset.1, ?_, hset.2.2.1, hset.2.2.2⟩
    rw [printed, List.filterMap_append, hnew]
    rfl
  refine ⟨h.toTree.congr (map_getElem?_set hp hsame) fun e he => ?_, fun k x hx => ?_⟩
  · refine (List.mem_append.mp he).imp id fun he => ?_
    obtain ⟨y, -, rfl⟩ := List.mem_map.mp he
    exact ⟨p, hp, rfl⟩
  · rw [set, getElem?_set_self hp] at hx
    rw [hrecord]
    split at hx
    · rename_i hik
      obtain rfl := Option.some.inj hx
      rw [if_pos hik, ← hik]
      exact hok
    · rename_i hik
      rw [if_neg hik, List.append_nil]
      exact h.proc hx

theorem Ok.set (h : s.Ok program whole) (hp : s.procs[i]? = some p) (hsame : SameChild p q)
    (hok : q.Ok whole (s.record i)) : (s.set i q).Ok program whole := by
  have hupdate := @update τ whole program s p q i h hp hsame [] (by rwa [List.append_nil])
  rwa [List.map_nil, List.append_nil] at hupdate

theorem Ok.print (h : s.Ok program whole) (hp : s.procs[k]? = some p) (hlife : p.life = .live)
    {x : Line τ} (hok : Process.Ok whole { p with script := rest }
      { s.record k with printed := s.printed k ++ [x] }) :
    (s.print k p x rest).Ok program whole := by
  rw [Family.print, h.getppid_eq hp hlife]
  exact h.update hp (sameChild_script p rest p.statuses) hok

theorem Ok.fork (h : s.Ok program whole) (hp : s.procs[k]? = some p) (hlife : p.life = .live)
    (hscript : p.script = .fork child rest) :
    ({ s.set k { p with script := rest } with
      procs := (s.set k { p with script := rest }).procs ++ [.init (some k) child] } :
        Family τ).Ok program whole := by
  have hsame := sameChild_script p rest p.statuses
  have hlt : k < s.procs.length := (List.getElem?_eq_some_iff.mp hp).1
  have htree : (s.set k { p with script := rest }).Tree program :=
    h.toTree.congr (map_getElem?_set hp hsame) fun e he => .inl he
  have hlength : (s.set k { p with script := rest }).procs.length = s.procs.length :=
    List.length_set
  refine ⟨htree.fork (by rwa [hlength]), fun j x hx => ?_⟩
  rw [record_fork, record_set hp hsame]
  rcases getElem?_concat_eq_some hx with hx | ⟨rfl, rfl⟩
  · rw [Family.set, getElem?_set_self hp] at hx
    split at hx
    · rename_i hkj
      obtain rfl := Option.some.inj hx
      subst hkj
      rw [if_pos rfl]
      exact (h.proc hp).fork hlife hscript
    · rename_i hkj
      rw [if_neg hkj]
      exact h.proc hx
  · have hchild := (h.proc hp).joined
    have hreads := (h.proc hp).reads
    rw [hscript] at hchild hreads
    rw [hlength, if_neg hlt.ne, h.toTree.record_length]
    exact Process.Ok.init hchild.1 hreads.1

theorem Ok.reap (h : s.Ok program whole) (hp : s.procs[k]? = some p) (hlife : p.life = .live)
    (hscript : p.script = .wait rest) (hq : s.procs[c]? = some q) (hparent : q.parent = some k)
    (hzombie : q.life = .zombie n) :
    ((s.set k { p with script := rest, statuses := p.statuses ++ [some n] }).set c
      { q with life := .reaped n }).Ok program whole := by
  have hsame := sameChild_script p rest (p.statuses ++ [some n])
  have hck : k ≠ c := by
    rintro rfl
    rw [Option.some.inj (hp.symm.trans hq), hzombie] at hlife
    cases hlife
  have hq' : (s.set k { p with script := rest, statuses := p.statuses ++ [some n] }).procs[c]? =
      some q := by
    rw [Family.set, getElem?_set_self hp, if_neg hck, hq]
  have hrecord := fun j => (record_reap hq' hparent hzombie j).trans
    (congrArg (fun r : Record τ => if k = j then
      { r with opened := r.opened - 1, collected := n ::ₘ r.collected } else r)
      (record_set hp hsame j))
  refine ⟨h.toTree.congr (fun j => ?_) fun e he => .inl he, fun j x hx => ?_⟩
  · rw [Family.set, getElem?_set_self hq']
    split
    · rename_i hcj
      rw [← hcj, hq]
      rfl
    · exact map_getElem?_set hp hsame j
  · rw [hrecord]
    rw [Family.set, getElem?_set_self hq'] at hx
    split at hx
    · rename_i hcj
      obtain rfl := Option.some.inj hx
      rw [if_neg (hcj ▸ hck), ← hcj]
      have hok := h.proc hq
      exact { hok with
        ended := by
          rintro m (hm | hm)
          · cases hm
          · cases hm
            exact hok.ended n (.inl hzombie) }
    · rw [Family.set, getElem?_set_self hp] at hx
      split at hx
      · rename_i hkj
        obtain rfl := Option.some.inj hx
        rw [if_pos hkj, ← hkj]
        exact (h.proc hp).reap hlife hscript
      · rename_i hkj
        rw [if_neg hkj]
        exact h.proc hx

/-- Every step keeps the invariant, if the failing calls of `fork` are allowed for. -/
theorem Ok.step (h : s.Ok program whole) (hwhole : whole → ∀ k, a ≠ .forkFails k)
    (hstep : ForkJoin.step s a = some t) : t.Ok program whole := by
  cases move_of_step hstep with
  | exit hp hlife hscript =>
    exact h.set hp (sameChild_zombie hlife _) ((h.proc hp).exit hscript)
  | print hp hlife hscript => exact h.print hp hlife ((h.proc hp).print hlife hscript)
  | printStatus hp hlife hscript => exact h.print hp hlife ((h.proc hp).printStatus hlife hscript)
  | fork hp hlife hscript => exact h.fork hp hlife hscript
  | waitFails hp hlife hscript hopened =>
    exact h.set hp (sameChild_script _ _ _) ((h.proc hp).waitFails hlife hscript hopened)
  | forkFails hp hlife hscript =>
    exact h.set hp (sameChild_script _ _ _)
      ((h.proc hp).forkFails (fun hw => hwhole hw _ rfl) hlife hscript)
  | reap hp hlife hscript hq hparent hzombie =>
    exact h.reap hp hlife hscript hq hparent hzombie

/-- What holds after any run of the program. -/
theorem Ok.of_run (hjoined : program.Joined 0) (hreads : program.Reads 0) {as : List Action}
    (hrun : run ForkJoin.step (Family.init program) as = some s) :
    s.Ok program (∀ k, .forkFails k ∉ as) := by
  have halong : Along ForkJoin.step
      (fun _ a => (∀ k, .forkFails k ∉ as) → ∀ k, a ≠ .forkFails k) (Family.init program) as :=
    Along.of_forall fun a ha _ hwhole k h => hwhole k (h ▸ ha)
  exact halong.run (fun _ _ _ h hcond hstep => h.step hcond hstep) (Ok.init hjoined hreads) hrun

/-! ### When a process has ended -/

theorem Ok.opened_eq_zero (h : s.Ok program whole) (hp : s.procs[k]? = some p)
    (hended : p.life ≠ .live) : s.opened k = 0 := by
  by_contra hopened
  exact hended (h.live_of_opened hp hopened)

/-- All children of a process that has ended have been waited for. -/
theorem Ok.reaped_of_parent (h : s.Ok program whole) (hp : s.procs[k]? = some p)
    (hended : p.life ≠ .live) (hq : s.procs[c]? = some q) (hparent : q.parent = some k) :
    q.life = .reaped q.program.code := by
  have hnot : ¬ q.IsOpen k = true :=
    List.countP_eq_zero.mp (h.opened_eq_zero hp hended) q (List.mem_of_getElem? hq)
  cases hlife : q.life with
  | live => exact absurd (by simp [Process.IsOpen, hparent, hlife]) hnot
  | zombie n => exact absurd (by simp [Process.IsOpen, hparent, hlife]) hnot
  | reaped n =>
    have hok := h.proc hq
    rw [← hok.code, hok.ended n (.inr hlife), Script.code]

/-- When the first process has ended, all others have been waited for. -/
theorem Ok.reaped (h : s.Ok program whole) (hp : s.procs[0]? = some p)
    (hended : p.life ≠ .live) (hq : s.procs[k]? = some q) (hk : k ≠ 0) :
    q.life = .reaped q.program.code := by
  induction k using Nat.strong_induction_on generalizing q with
  | h k ih =>
    obtain ⟨j, hlt, hparent⟩ := h.parent hq hk
    rcases eq_or_ne j 0 with rfl | hj
    · exact h.reaped_of_parent hp hended hq hparent
    · have hjlt : j < s.procs.length := hlt.trans (List.getElem?_eq_some_iff.mp hq).1
      have hget : s.procs[j]? = some s.procs[j] := List.getElem?_eq_getElem hjlt
      have hreaped := ih j hlt hget hj
      exact h.reaped_of_parent hget (by rw [hreaped]; exact fun h => nomatch h) hq hparent

/-- What a process has printed when it has ended, given its statuses. -/
theorem Ok.printed_eq (h : s.Ok program whole) (hp : s.procs[k]? = some p)
    (hended : p.life ≠ .live) :
    s.printed k = p.program.lines p.statuses ∧ p.statuses.length = p.program.waits := by
  have hok := h.proc hp
  have hscript : ∃ n, p.script = .exit n := by
    cases hlife : p.life with
    | live => exact absurd hlife hended
    | zombie n => exact ⟨n, hok.ended n (.inl hlife)⟩
    | reaped n => exact ⟨n, hok.ended n (.inr hlife)⟩
  obtain ⟨n, hscript⟩ := hscript
  have hlines := hok.lines []
  have hwaits := hok.waits
  rw [hscript, Script.lines, List.append_nil, List.append_nil] at hlines
  rw [hscript, Script.waits, Nat.add_zero] at hwaits
  exact ⟨hlines, hwaits⟩

/-- The statuses of a process that has ended are the exit codes of its children, in the order
in which they ended, with nothing in the place of those it could not fork. -/
theorem Ok.statuses_eq (h : s.Ok program whole) (hp : s.procs[k]? = some p)
    (hended : p.life ≠ .live) :
    p.statuses.reduceOption.Perm ((s.forked k).map Script.code) := by
  have hall : ∀ q ∈ s.procs, q.collected k = (q.forkedBy k).map Script.code := by
    intro q hq
    obtain ⟨c, hc⟩ := List.mem_iff_getElem?.mp hq
    rw [Process.collected, Process.forkedBy]
    split
    · rename_i hparent
      rw [h.reaped_of_parent hp hended hc hparent]
      rfl
    · rfl
  have hcollected : s.collected k = (s.forked k).map Script.code := by
    rw [collected, forked, List.map_filterMap]
    exact List.filterMap_congr hall
  rw [← hcollected]
  exact Multiset.coe_eq_coe.mp (h.proc hp).statuses

theorem Ok.forked_sublist (h : s.Ok program whole) (hp : s.procs[k]? = some p) :
    (s.forked k).Sublist p.program.forks :=
  (List.sublist_append_left _ _).trans (h.proc hp).forks

theorem Ok.forked_eq (h : s.Ok program whole) (hwhole : whole) (hp : s.procs[k]? = some p)
    (hended : p.life ≠ .live) : s.forked k = p.program.forks := by
  have hok := h.proc hp
  have hforks := hok.whole hwhole
  cases hlife : p.life with
  | live => exact absurd hlife hended
  | zombie n => rwa [hok.ended n (.inl hlife), Script.forks, List.append_nil] at hforks
  | reaped n => rwa [hok.ended n (.inr hlife), Script.forks, List.append_nil] at hforks

end Family

/-! ### Statuses that are there -/

/-- The statuses a process prints, by the calls of `wait` that store them. -/
def Script.statuses : Script τ → List ℕ
  | .exit _ => []
  | .printStatus i rest => i :: rest.statuses
  | .print _ rest | .fork _ rest | .wait rest => rest.statuses

/-- The process waits once for each child, and prints all the statuses it gets. -/
def Script.Balanced (p : Script τ) : Prop :=
  p.waits = p.forks.length ∧ p.statuses = List.range p.waits

instance (p : Script τ) : Decidable p.Balanced := inferInstanceAs (Decidable (_ ∧ _))

theorem Script.status_mem_lines {statuses : List (Option ℕ)} {x : Option ℕ} :
    Line.status x ∈ program.lines statuses ↔ ∃ i ∈ program.statuses, statuses[i]?.join = x := by
  induction program with
  | exit _ => simp [lines, Script.statuses]
  | print _ _ ih => simpa [lines, Script.statuses] using ih
  | printStatus _ _ ih =>
    simp only [lines, Script.statuses, List.mem_cons, Line.status.injEq, ih, exists_eq_or_imp]
    exact or_congr_left eq_comm
  | fork _ _ _ ih => exact ih
  | wait _ ih => exact ih

theorem length_reduceOption_lt {l : List (Option ℕ)} :
    none ∈ l ↔ l.reduceOption.length < l.length := by
  induction l with
  | nil => simp
  | cons x l ih =>
    cases x with
    | none =>
      have hle := List.reduceOption_length_le l
      simp only [List.mem_cons, true_or, List.reduceOption_cons_of_none, List.length_cons, true_iff]
      omega
    | some n => simpa [List.reduceOption_cons_of_some] using ih

namespace Family

variable {whole : Prop} {s : Family τ}

/-- In the end a status is missing exactly if a child is. -/
theorem Ok.status_none_mem_iff (h : s.Ok program whole) (hp : s.procs[k]? = some p)
    (hended : p.life ≠ .live) (hbalanced : p.program.Balanced) :
    .status none ∈ s.printed k ↔ s.forked k ≠ p.program.forks := by
  obtain ⟨hprinted, hlength⟩ := h.printed_eq hp hended
  have hperm := (h.statuses_eq hp hended).length_eq
  have hsublist := h.forked_sublist hp
  obtain ⟨hwaits, hstatuses⟩ := hbalanced
  have hmissing : (∃ i ∈ p.program.statuses, p.statuses[i]?.join = none) ↔ none ∈ p.statuses := by
    rw [hstatuses, List.mem_iff_getElem?]
    constructor
    · rintro ⟨i, hi, hnone⟩
      have hlt : i < p.statuses.length := by
        rw [hlength]
        exact List.mem_range.mp hi
      rw [List.getElem?_eq_getElem hlt, Option.join_some] at hnone
      exact ⟨i, by rw [List.getElem?_eq_getElem hlt, hnone]⟩
    · rintro ⟨i, hi⟩
      have hlt := (List.getElem?_eq_some_iff.mp hi).1
      exact ⟨i, List.mem_range.mpr (hlength ▸ hlt), by rw [hi, Option.join_some]⟩
  rw [hprinted, Script.status_mem_lines, hmissing, length_reduceOption_lt, hperm, hlength,
    List.length_map, hwaits]
  constructor
  · intro hlt heq
    rw [heq] at hlt
    exact lt_irrefl _ hlt
  · intro hne
    exact lt_of_le_of_ne hsublist.length_le fun heq => hne (hsublist.eq_of_length heq)

/-- If all children were forked, the statuses are their exit codes in some order. -/
theorem Ok.statuses_of_forked (h : s.Ok program whole) (hp : s.procs[k]? = some p)
    (hended : p.life ≠ .live) (hbalanced : p.program.Balanced)
    (hforked : s.forked k = p.program.forks) :
    ∃ codes : List ℕ, codes.Perm (p.program.forks.map Script.code) ∧
      s.printed k = p.program.lines (codes.map some) := by
  obtain ⟨hprinted, hlength⟩ := h.printed_eq hp hended
  have hperm := h.statuses_eq hp hended
  rw [hforked] at hperm
  have hnone : none ∉ p.statuses := by
    rw [length_reduceOption_lt, hperm.length_eq, hlength, List.length_map, hbalanced.1]
    exact lt_irrefl _
  have hall : p.statuses.reduceOption.map some = p.statuses := by
    have hl : ∀ l : List (Option ℕ), none ∉ l → l.reduceOption.map some = l := by
      intro l hl
      induction l with
      | nil => rfl
      | cons x l ih =>
        rw [List.mem_cons, not_or] at hl
        obtain ⟨n, rfl⟩ := Option.ne_none_iff_exists'.mp (Ne.symm hl.1)
        rw [List.reduceOption_cons_of_some, List.map_cons, ih hl.2]
    exact hl _ hnone
  exact ⟨_, hperm, by rw [hall, hprinted]⟩

/-- Each process but the first has been forked by one that runs the program for this. -/
theorem Ok.exists_parent (h : s.Ok program whole) (hp : s.procs[k]? = some p) (hk : k ≠ 0) :
    ∃ j q, j < k ∧ p.parent = some j ∧ s.procs[j]? = some q ∧ p.program ∈ q.program.forks := by
  obtain ⟨j, hlt, hparent⟩ := h.parent hp hk
  have hjlt : j < s.procs.length := hlt.trans (List.getElem?_eq_some_iff.mp hp).1
  have hget : s.procs[j]? = some s.procs[j] := List.getElem?_eq_getElem hjlt
  have hmem : p.program ∈ s.forked j :=
    List.mem_filterMap.mpr ⟨p, List.mem_of_getElem? hp, if_pos hparent⟩
  exact ⟨j, s.procs[j], hlt, hparent, hget, (h.forked_sublist hget).subset hmem⟩

/-- What all programs of a family have if children inherit it. -/
theorem Ok.inherits (h : s.Ok program whole) {prop : Script τ → Prop} (hprogram : prop program)
    (hforks : ∀ ⦃x⦄, prop x → ∀ y ∈ x.forks, prop y) (hp : s.procs[k]? = some p) :
    prop p.program := by
  induction k using Nat.strong_induction_on generalizing p with
  | h k ih =>
    rcases eq_or_ne k 0 with rfl | hk
    · obtain ⟨q, hq, -, hroot⟩ := h.root
      rw [Option.some.inj (hp.symm.trans hq), hroot]
      exact hprogram
    · obtain ⟨j, q, hlt, -, hq, hmem⟩ := h.exists_parent hp hk
      exact hforks (ih j hlt hq) _ hmem

end Family

/-! ### All runs end -/

/-- The number of steps a program takes, with those of its children. -/
def Script.size : Script τ → ℕ
  | .exit _ => 1
  | .print _ rest | .printStatus _ rest | .wait rest => rest.size + 1
  | .fork child rest => child.size + rest.size + 1

/-- The steps a process still has to make. -/
def Process.size (p : Process τ) : ℕ :=
  match p.life with
  | .live => p.script.size
  | _ => 0

namespace Family

def size (s : Family τ) : ℕ := (s.procs.map Process.size).sum

theorem size_set (hp : s.procs[k]? = some p) : (s.set k q).size + p.size = s.size + q.size :=
  sum_set hp

theorem size_set_lt (hp : s.procs[k]? = some p) (hless : q.size < p.size) :
    (s.set k q).size < s.size := by
  have hset := @size_set τ s p q k hp
  omega

theorem size_lt (hstep : ForkJoin.step s a = some t) : t.size < s.size := by
  cases move_of_step hstep with
  | exit hp hlife hscript =>
    exact size_set_lt hp (by simp [Process.size, hlife, hscript, Script.size])
  | @print k p _ rest hp hlife hscript =>
    have hlt : (s.set k { p with script := rest }).size < s.size :=
      size_set_lt hp (by simp [Process.size, hlife, hscript, Script.size])
    exact hlt
  | @printStatus k _ p rest hp hlife hscript =>
    have hlt : (s.set k { p with script := rest }).size < s.size :=
      size_set_lt hp (by simp [Process.size, hlife, hscript, Script.size])
    exact hlt
  | @fork k p child rest hp hlife hscript =>
    have hset := @size_set τ s p { p with script := rest } k hp
    have hold : p.size = child.size + rest.size + 1 := by
      simp [Process.size, hlife, hscript, Script.size]
    have hnew : Process.size { p with script := rest } = rest.size := by
      simp [Process.size, hlife]
    have hchild : (Process.init (some k) child).size = child.size := rfl
    have happend : ({ s.set k { p with script := rest } with
        procs := (s.set k { p with script := rest }).procs ++ [.init (some k) child] } :
          Family τ).size = (s.set k { p with script := rest }).size + child.size := by
      simp [size, hchild]
    refine happend.trans_lt ?_
    omega
  | waitFails hp hlife hscript =>
    exact size_set_lt hp (by simp [Process.size, hlife, hscript, Script.size])
  | @forkFails k p child rest hp hlife hscript =>
    have hold : p.size = child.size + rest.size + 1 := by
      simp [Process.size, hlife, hscript, Script.size]
    have hnew : Process.size { p with script := rest } = rest.size := by
      simp [Process.size, hlife]
    exact size_set_lt hp (by omega)
  | @reap k c n p q rest hp hlife hscript hq hparent hzombie =>
    have hck : k ≠ c := by
      rintro rfl
      rw [Option.some.inj (hp.symm.trans hq), hzombie] at hlife
      cases hlife
    have hlt : (s.set k { p with
        script := rest, statuses := p.statuses ++ [some n] }).size < s.size :=
      size_set_lt hp (by simp [Process.size, hlife, hscript, Script.size])
    have hq' : (s.set k { p with
        script := rest, statuses := p.statuses ++ [some n] }).procs[c]? = some q := by
      rw [set, getElem?_set_self hp, if_neg hck, hq]
    have hset := @size_set τ _ q { q with life := .reaped n } c hq'
    have hold : q.size = 0 := by simp [Process.size, hzombie]
    have hnew : Process.size { q with life := .reaped n } = 0 := rfl
    omega

/-- Nobody waits for ever: only when all processes have ended is there nothing to do. -/
theorem Ok.ended_of_stuck (h : s.Ok program whole) (hstuck : Stuck ForkJoin.step s)
    (hp : s.procs[k]? = some p) : p.life ≠ .live := by
  -- The last live process has no child that is still alive.
  induction hn : s.procs.length - k using Nat.strong_induction_on generalizing k p with
  | h n ih =>
    intro hlife
    have hlive : s.live k = some p := by
      rw [live, hp, Option.filter_some, if_pos (by simp [hlife])]
    have hgo := hstuck (.go k)
    rw [ForkJoin.step, hlive, Option.bind_some, Family.advance] at hgo
    split at hgo
    · cases hgo
    · cases hgo
    · cases hgo
    · cases hgo
    · rename_i rest hscript
      split at hgo
      · cases hgo
      · rename_i hopened
        obtain ⟨q, hq, hopen⟩ := List.countP_pos_iff.mp (Nat.pos_of_ne_zero hopened)
        obtain ⟨c, hc⟩ := List.mem_iff_getElem?.mp hq
        have hparent : q.parent = some k := by
          rw [Process.IsOpen, Bool.and_eq_true] at hopen
          simpa using hopen.1
        have hc0 : c ≠ 0 := by
          rintro rfl
          obtain ⟨r, hr, hnone, -⟩ := h.root
          rw [Option.some.inj (hc.symm.trans hr), hnone] at hparent
          cases hparent
        obtain ⟨j, hlt, hj⟩ := h.parent hc hc0
        obtain rfl : j = k := Option.some.inj (hj.symm.trans hparent)
        have hclt := (List.getElem?_eq_some_iff.mp hc).1
        have hdead := ih (s.procs.length - c) (by omega) hc rfl
        have hreap := hstuck (.reap j c)
        rw [ForkJoin.step, hlive, Option.bind_some, Family.reap] at hreap
        simp only [hscript, hc] at hreap
        cases hqlife : q.life with
        | live => exact hdead hqlife
        | zombie n =>
          simp only [hqlife] at hreap
          rw [if_pos hparent] at hreap
          cases hreap
        | reaped n => simp [Process.IsOpen, hqlife] at hopen

end Family

/-! ### Who there is -/

/-- The programs of all processes that a process forks, directly or through its children. -/
def Script.descendants : Script τ → Multiset (Script τ)
  | .exit _ => 0
  | .print _ rest | .printStatus _ rest | .wait rest => rest.descendants
  | .fork child rest => child ::ₘ (child.descendants + rest.descendants)

/-- The programs of a process and of all it is still going to fork. -/
def Process.census (p : Process τ) : Multiset (Script τ) := p.program ::ₘ p.script.descendants

namespace Family

def census (s : Family τ) : Multiset (Script τ) := (s.procs.map Process.census).sum

theorem census_set (hp : s.procs[k]? = some p) (h : q.census = p.census) :
    (s.set k q).census = s.census := by
  have hsum : (s.set k q).census + p.census = s.census + q.census := sum_set hp
  rw [h] at hsum
  exact add_right_cancel hsum

/-- As long as no `fork` fails, nobody gets lost. -/
theorem census_step (hfork : ∀ k, a ≠ .forkFails k) (hstep : ForkJoin.step s a = some t) :
    t.census = s.census := by
  cases move_of_step hstep with
  | exit hp hlife hscript => exact census_set hp rfl
  | @print k p x rest hp hlife hscript =>
    have hset : (s.set k { p with script := rest }).census = s.census :=
      census_set hp (by simp only [Process.census, hscript, Script.descendants])
    exact hset
  | @printStatus k i p rest hp hlife hscript =>
    have hset : (s.set k { p with script := rest }).census = s.census :=
      census_set hp (by simp only [Process.census, hscript, Script.descendants])
    exact hset
  | @fork k p child rest hp hlife hscript =>
    have hsum : (s.set k { p with script := rest }).census + p.census =
        s.census + Process.census { p with script := rest } := sum_set hp
    have happend : ({ s.set k { p with script := rest } with
        procs := (s.set k { p with script := rest }).procs ++ [.init (some k) child] } :
          Family τ).census = (s.set k { p with script := rest }).census +
            child ::ₘ child.descendants := by
      simp [census, Process.census, Process.init]
    have hsplit : p.census =
        Process.census { p with script := rest } + child ::ₘ child.descendants := by
      simp only [Process.census, hscript, Script.descendants]
      rw [Multiset.cons_add, Multiset.add_cons, add_comm rest.descendants]
    rw [hsplit, add_comm (Process.census _), ← add_assoc] at hsum
    exact happend.trans (add_right_cancel hsum)
  | waitFails hp hlife hscript =>
    exact census_set hp (by simp only [Process.census, hscript, Script.descendants])
  | forkFails => exact absurd rfl (hfork _)
  | @reap k c n p q rest hp hlife hscript hq hparent hzombie =>
    have hck : k ≠ c := by
      rintro rfl
      rw [Option.some.inj (hp.symm.trans hq), hzombie] at hlife
      cases hlife
    have hq' : (s.set k { p with
        script := rest, statuses := p.statuses ++ [some n] }).procs[c]? = some q := by
      rw [set, getElem?_set_self hp, if_neg hck, hq]
    have hset : (s.set k { p with
        script := rest, statuses := p.statuses ++ [some n] }).census = s.census :=
      census_set hp (by simp only [Process.census, hscript, Script.descendants])
    rw [← hset]
    exact @census_set τ _ q { q with life := .reaped n } c hq' rfl

/-- In the end there is one process for each program that was to be forked. -/
theorem Ok.programs_eq (h : s.Ok program whole) {as : List Action}
    (hfork : ∀ k, .forkFails k ∉ as)
    (hrun : run ForkJoin.step (Family.init program) as = some s)
    (hended : ∀ p ∈ s.procs, p.life ≠ .live) :
    (s.procs.map Process.program : Multiset (Script τ)) = program ::ₘ program.descendants := by
  have hcensus : s.census = program ::ₘ program.descendants := by
    have halong : Along ForkJoin.step (fun _ a => ∀ k, a ≠ .forkFails k) (Family.init program) as :=
      Along.of_forall fun a ha _ k hak => hfork k (hak ▸ ha)
    have hinit : (Family.init program).census = program ::ₘ program.descendants := by
      simp [census, Family.init, Process.census, Process.init]
    refine @Along.run _ _ _ _ _ _ _ (fun t : Family τ => t.census = program ::ₘ program.descendants)
      (fun _ _ _ h hcond hstep => (census_step hcond hstep).trans h) hinit halong hrun
  rw [← hcensus, census]
  have hall : ∀ p ∈ s.procs, p.census = {p.program} := by
    intro p hp
    obtain ⟨k, hk⟩ := List.mem_iff_getElem?.mp hp
    have hok := h.proc hk
    cases hlife : p.life with
    | live => exact absurd hlife (hended p hp)
    | zombie n =>
      rw [Process.census, hok.ended n (.inl hlife)]
      rfl
    | reaped n =>
      rw [Process.census, hok.ended n (.inr hlife)]
      rfl
  rw [List.map_congr_left hall]
  induction s.procs with
  | nil => rfl
  | cons p procs ih =>
    rw [List.map_cons, List.map_cons, List.sum_cons, ← ih, Multiset.singleton_add]
    rfl

end Family

end UnixLessons.ForkJoin

import UnixLessons.Processes.Ordering
import UnixLessons.Text.CString

/-!
# Two families of processes

One lesson forks a child and prints its exit code, the other a family of three generations.
Each process prints its own pid and that of its parent, and a parent prints the exit codes
of its children when it has waited for all of them. The calls of `sleep` only delay a
process, which any order of steps allows for.

## Main results

* `proc2_complete`: what the family of `proc2.c` leaves behind in the end
* `status_unset_iff`: a status is printed unset exactly if a child could not be forked
* `family_ends`: both families always come to their end
-/

namespace UnixLessons.ProcessTrees

open Text ForkJoin Transition

/-- What a process prints: a text, or its pid and its parent's pid behind two labels. -/
inductive Output
  | plain (text : CString)
  | ids (pid ppid : CString)
deriving DecidableEq

/-! ### The programs -/

namespace Proc1

def child : Script Output :=
  .print (.ids "Child_pid = ".toList "; Child_ppid = ".toList) <|
  .exit 5

/-- `main` of `proc1.c`. -/
def main : Script Output :=
  .print (.plain "Hello".toList) <|
  .fork child <|
  .print (.ids "Parent_pid = ".toList "; Parent_pid = ".toList) <|
  .wait <|
  .printStatus 0 <|
  .print (.plain []) <|
  .exit 0

end Proc1

namespace Proc2

def idsOf (name : String) : Output := .ids (name ++ ": PID = ").toList "; PPID = ".toList

def proc3 : Script Output := .print (idsOf "Proc3_pid") <| .exit 3

def proc4 : Script Output := .print (idsOf "Proc4_pid") <| .exit 4

def proc5 : Script Output := .print (idsOf "Proc5_pid") <| .exit 5

def proc1 : Script Output :=
  .fork proc3 <|
  .fork proc4 <|
  .wait <|
  .wait <|
  .print (idsOf "Proc1_pid") <|
  .printStatus 0 <|
  .printStatus 1 <|
  .print (.plain []) <|
  .exit 1

def proc2 : Script Output :=
  .fork proc5 <|
  .wait <|
  .print (idsOf "Proc2_pid") <|
  .printStatus 0 <|
  .print (.plain []) <|
  .exit 2

/-- `main` of `proc2.c`. -/
def main : Script Output :=
  .fork proc1 <|
  .fork proc2 <|
  .wait <|
  .wait <|
  .print (idsOf "Parent") <|
  .printStatus 0 <|
  .printStatus 1 <|
  .print (.plain []) <|
  .exit 0

end Proc2

variable {program : Script Output} {s : Family Output} {as : List Action} {k : ℕ}
  {p : Process Output}

/-- What the processes of the two families are forked for. -/
def programs : List (Script Output) :=
  [Proc1.main, Proc1.child, Proc2.main, Proc2.proc1, Proc2.proc2, Proc2.proc3, Proc2.proc4,
    Proc2.proc5]

/-- One of the two programs. -/
def IsMain (program : Script Output) : Prop := program = Proc1.main ∨ program = Proc2.main

namespace IsMain

theorem joined (h : IsMain program) : program.Joined 0 := by
  rcases h with rfl | rfl <;> decide

theorem reads (h : IsMain program) : program.Reads 0 := by
  rcases h with rfl | rfl <;> decide

/-- All programs of the two families wait once for each child. -/
theorem balanced {whole : Prop} (h : IsMain program) (hok : s.Ok program whole)
    (hp : s.procs[k]? = some p) : p.program.Balanced := by
  have hall : ∀ x ∈ programs, x.Balanced ∧ ∀ y ∈ x.forks, y ∈ programs := by decide
  have hmain : program ∈ programs := by rcases h with rfl | rfl <;> decide
  have hmem : p.program ∈ programs :=
    @Family.Ok.inherits _ _ _ _ _ _ hok (· ∈ programs) hmain (fun x hx => (hall x hx).2) hp
  exact (hall _ hmem).1

end IsMain

/-- The first process has ended. -/
def Over (s : Family Output) : Prop := ∃ p, s.procs[0]? = some p ∧ p.life ≠ .live

/-! ### What is left in the end -/

/-- All six processes have run, each forked by the one whose program does so, and were waited
for. Each has found its parent alive, and has printed its own lines, with the exit codes of its
children in the order in which they ended. Nobody prints after its parent. -/
structure Proc2.Complete (s : Family Output) : Prop where
  programs : (s.procs.map Process.program).Perm [main, proc1, proc2, proc3, proc4, proc5]
  root : ∃ p, s.procs[0]? = some p ∧ p.parent = none ∧ p.program = Proc2.main
  parent : ∀ ⦃k⦄ ⦃p : Process Output⦄, s.procs[k]? = some p → k ≠ 0 →
    ∃ j q, p.parent = some j ∧ s.procs[j]? = some q ∧ p.program ∈ q.program.forks
  forked : ∀ ⦃k⦄ ⦃p : Process Output⦄, s.procs[k]? = some p → s.forked k = p.program.forks
  reaped : ∀ ⦃k⦄ ⦃p : Process Output⦄, s.procs[k]? = some p → k ≠ 0 →
    p.life = .reaped p.program.code
  parents : ∀ e ∈ s.out, ∃ p, s.procs[e.pid]? = some p ∧ e.ppid = p.parent
  main : ∃ a b, [a, b].Perm [1, 2] ∧ s.printed 0 =
    [.text (idsOf "Parent"), .status (some a), .status (some b), .text (.plain [])]
  proc1 : ∀ ⦃k⦄ ⦃p : Process Output⦄, s.procs[k]? = some p → p.program = proc1 →
    ∃ a b, [a, b].Perm [3, 4] ∧ s.printed k =
      [.text (idsOf "Proc1_pid"), .status (some a), .status (some b), .text (.plain [])]
  proc2 : ∀ ⦃k⦄ ⦃p : Process Output⦄, s.procs[k]? = some p → p.program = proc2 →
    s.printed k = [.text (idsOf "Proc2_pid"), .status (some 5), .text (.plain [])]
  leaf : ∀ ⦃k⦄ ⦃p : Process Output⦄, s.procs[k]? = some p →
    ∀ ⦃text code⦄, p.program = .print text (.exit code) → s.printed k = [.text text]
  order : s.out.Pairwise fun e e' => e'.ppid ≠ some e.pid

/-- Two codes of which nothing is known but that they are those of two children. -/
theorem exists_pair {codes : List ℕ} {a b : ℕ} (h : codes.Perm [a, b]) :
    ∃ c d, codes = [c, d] ∧ [c, d].Perm [a, b] := by
  obtain ⟨c, d, rfl⟩ := List.length_eq_two.mp h.length_eq
  exact ⟨c, d, rfl, h⟩

theorem ended_of_over {whole : Prop} (h : s.Ok program whole) (hover : Over s)
    (hp : s.procs[k]? = some p) : p.life ≠ .live := by
  obtain ⟨q, hq, hended⟩ := hover
  rcases eq_or_ne k 0 with rfl | hk
  · rwa [Option.some.inj (hp.symm.trans hq)]
  · rw [h.reaped hq hended hp hk]
    exact fun h => nomatch h

/-- In every order of steps the family of `proc2.c` leaves the same behind. -/
theorem proc2_complete (hrun : run step (Family.init Proc2.main) as = some s)
    (hforks : ∀ k, .forkFails k ∉ as) (hover : Over s) : Proc2.Complete s := by
  have hmain : IsMain Proc2.main := .inr rfl
  have hok := Family.Ok.of_run hmain.joined hmain.reads hrun
  have hended := fun {k p} => @ended_of_over Proc2.main s k p _ hok hover
  have hstatuses : ∀ {k : ℕ} {p : Process Output}, s.procs[k]? = some p →
      ∃ codes : List ℕ, codes.Perm (p.program.forks.map Script.code) ∧
        s.printed k = p.program.lines (codes.map some) := fun hp =>
    hok.statuses_of_forked hp (hended hp) (hmain.balanced hok hp)
      (hok.forked_eq hforks hp (hended hp))
  have hordered : s.Ordered fun _ => True :=
    Family.Ordered.of_run hmain.joined hmain.reads (by
      simp [Script.PrintsLate, Script.forks, Proc2.main, Proc2.proc1, Proc2.proc2, Proc2.proc3,
        Proc2.proc4, Proc2.proc5]) hrun
  refine ⟨?_, hok.root, ?_, fun k p hp => hok.forked_eq hforks hp (hended hp), ?_, hok.ppid, ?_,
    ?_, ?_, ?_, ?_⟩
  · have hprograms := hok.programs_eq hforks hrun fun p hp => by
      obtain ⟨k, hk⟩ := List.mem_iff_getElem?.mp hp
      exact hended hk
    exact Multiset.coe_eq_coe.mp (hprograms.trans (by decide))
  · intro k p hp hk
    obtain ⟨j, q, -, hparent, hq, hmem⟩ := hok.exists_parent hp hk
    exact ⟨j, q, hparent, hq, hmem⟩
  · obtain ⟨q, hq, hq'⟩ := hover
    exact fun k p hp hk => hok.reaped hq hq' hp hk
  · obtain ⟨p, hp, -, hprogram⟩ := hok.root
    obtain ⟨codes, hcodes, hprinted⟩ := hstatuses hp
    rw [hprogram] at hcodes hprinted
    obtain ⟨a, b, rfl, hab⟩ := exists_pair hcodes
    exact ⟨a, b, hab, hprinted⟩
  · intro k p hp hprogram
    obtain ⟨codes, hcodes, hprinted⟩ := hstatuses hp
    rw [hprogram] at hcodes hprinted
    obtain ⟨a, b, rfl, hab⟩ := exists_pair hcodes
    exact ⟨a, b, hab, hprinted⟩
  · intro k p hp hprogram
    obtain ⟨codes, hcodes, hprinted⟩ := hstatuses hp
    rw [hprogram] at hcodes hprinted
    obtain rfl : codes = [5] := List.perm_singleton.mp hcodes
    exact hprinted
  · intro k p hp text code hprogram
    obtain ⟨codes, -, hprinted⟩ := hstatuses hp
    rw [hprinted, hprogram]
    rfl
  · refine hordered.pairwise.imp fun {e e'} h => h ?_
    cases e.line <;> trivial

/-- A run in which the youngest live process goes first. -/
def proc2Steps : List Action :=
  [.go 0, .go 0, .go 1, .go 1, .go 2, .go 3, .go 3, .go 4, .go 4, .go 5, .go 5, .reap 2 5, .go 2,
    .go 2, .go 2, .go 2, .reap 0 2, .reap 1 4, .reap 1 3, .go 1, .go 1, .go 1, .go 1, .go 1,
    .reap 0 1, .go 0, .go 0, .go 0, .go 0, .go 0]

theorem proc2_complete_steps :
    ∃ s, run step (Family.init Proc2.main) proc2Steps = some s ∧ Proc2.Complete s :=
  ⟨_, rfl, @proc2_complete _ proc2Steps rfl (by simp [proc2Steps]) ⟨_, rfl, by decide⟩⟩

/-- With any outcome of the calls of `fork`, a process that has ended has printed a status
without having stored it exactly if it could not fork one of its children. -/
theorem status_unset_iff (h : IsMain program)
    (hrun : run step (Family.init program) as = some s) (hp : s.procs[k]? = some p)
    (hended : p.life ≠ .live) :
    .status none ∈ s.printed k ↔ s.forked k ≠ p.program.forks := by
  have hok := Family.Ok.of_run h.joined h.reads hrun
  exact hok.status_none_mem_iff hp hended (h.balanced hok hp)

/-- A run in which `fork` fails. -/
def proc1Steps : List Action := [.go 0, .forkFails 0, .go 0, .go 0, .go 0, .go 0, .go 0]

/-- Without a child the exit code is printed unset. -/
theorem status_unset_iff_forkFails :
    ∃ s, run step (Family.init Proc1.main) proc1Steps = some s ∧ .status none ∈ s.printed 0 :=
  ⟨_, rfl, (@status_unset_iff _ _ proc1Steps 0 _ (.inl rfl) rfl rfl (by decide)).mpr
    (by decide)⟩

/-- However the steps are ordered and whatever `fork` returns, only so many steps are made, and
there is always another one until the first process has ended and all others have been waited
for. -/
theorem family_ends (h : IsMain program) (hrun : run step (Family.init program) as = some s) :
    as.length ≤ program.size ∧
      (Stuck step s → Over s ∧ ∀ k p, s.procs[k]? = some p → k ≠ 0 →
        p.life = .reaped p.program.code) := by
  have hok := Family.Ok.of_run h.joined h.reads hrun
  refine ⟨?_, fun hstuck => ?_⟩
  · have hsize : (Family.init program).size = program.size := Nat.add_zero _
    have hkeeps : Preserved step fun s : Family Output => s.Ok program False :=
      fun _ _ _ hs hstep => hs.step False.elim hstep
    have hle := hkeeps.size_add_length_le (fun _ _ _ _ hstep => Family.size_lt hstep)
      (Family.Ok.init h.joined h.reads) hrun
    omega
  · obtain ⟨q, hq, -, -⟩ := hok.root
    have hended := hok.ended_of_stuck hstuck hq
    exact ⟨⟨q, hq, hended⟩, fun k p hp hk => hok.reaped hq hended hp hk⟩

theorem family_ends_steps :
    ∃ s, run step (Family.init Proc2.main) proc2Steps = some s ∧
      proc2Steps.length ≤ Proc2.main.size ∧ (Stuck step s → Over s) :=
  ⟨_, rfl, (@family_ends _ _ proc2Steps (.inr rfl) rfl).1,
    fun h => ((@family_ends _ _ proc2Steps (.inr rfl) rfl).2 h).1⟩

end UnixLessons.ProcessTrees

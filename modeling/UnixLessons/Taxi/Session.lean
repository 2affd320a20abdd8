import UnixLessons.Taxi.CommandLine
import UnixLessons.Taxi.Messages
import UnixLessons.Taxi.Moves

/-!
# A session of the dispatcher

The dispatcher with its standard input: the commands it goes on with are those in the lines it
reads, each when it is back at its prompt. The text of a list of commands has one line for
each of them.

## Main result

* `session_requests`: the calls of `send_command` that come out of a text
-/

namespace UnixLessons.Taxi

open Text Transition World

/-- The dispatcher with its drivers, what is left of its input, and the commands so far. -/
structure Session where
  world : World
  stdin : Stdin
  typed : List Command

/-- The lines of these commands. -/
def linesOf (commands : List Command) : Stdin := commands.flatMap fun c => c.line ++ ['\n']

namespace Session

def init (stdin : Stdin) : Session := ⟨.init, stdin, []⟩

/-- The command of the next line, and what is left behind it. -/
def read (s : Session) : Option (Command × Stdin) :=
  (fgets bufferSize s.stdin).map fun (line, rest) => (commandOf (removeNewline (cstr line)), rest)

/-- A move of the system that agrees with the input. -/
def step (s : Session) : Action → Option Session
  | .type command =>
    match s.read with
    | some (c, rest) =>
      if c = command then
        (Taxi.step s.world (.type command)).map fun world => ⟨world, rest, s.typed ++ [command]⟩
      else none
    | none => none
  | .endOfInput =>
    if s.stdin = [] then (Taxi.step s.world .endOfInput).map fun world => { s with world } else none
  | a => (Taxi.step s.world a).map fun world => { s with world }

end Session

variable {s t : Session} {a : Action} {c : Command} {cs : List Command} {rest : Stdin}

/-! ### Moves of a session -/

theorem step_type_eq_some (h : s.step (.type c) = some t) :
    ∃ world, s.read = some (c, t.stdin) ∧ Taxi.step s.world (.type c) = some world ∧
      t = ⟨world, t.stdin, s.typed ++ [c]⟩ := by
  simp only [Session.step] at h
  split at h
  · rename_i d rest hread
    split at h
    · rename_i hd
      obtain ⟨world, hworld, rfl⟩ := Option.map_eq_some_iff.mp h
      exact ⟨world, by rw [hread, hd], hworld, rfl⟩
    · cases h
  · cases h

theorem step_other_eq_some (hother : ∀ c, a ≠ .type c) (h : s.step a = some t) :
    ∃ world, Taxi.step s.world a = some world ∧ t = { s with world } := by
  have hmap : (Taxi.step s.world a).map (fun world => { s with world }) = some t := by
    cases a with
    | type c => exact absurd rfl (hother c)
    | endOfInput =>
      simp only [Session.step] at h
      split at h
      · exact h
      · cases h
    | _ => exact h
  obtain ⟨world, hworld, rfl⟩ := Option.map_eq_some_iff.mp hmap
  exact ⟨world, hworld, rfl⟩

/-- A session is a run of the system. -/
theorem step_world (h : s.step a = some t) : Taxi.step s.world a = some t.world := by
  by_cases htype : ∃ c, a = .type c
  · obtain ⟨c, rfl⟩ := htype
    obtain ⟨world, -, hworld, ht⟩ := step_type_eq_some h
    rw [ht]
    exact hworld
  · rw [not_exists] at htype
    obtain ⟨world, hworld, rfl⟩ := step_other_eq_some htype h
    exact hworld

theorem run_world {acts : List Action} (h : run Session.step s acts = some t) :
    run Taxi.step s.world acts = some t.world := by
  induction acts generalizing s with
  | nil => rw [Option.some.inj h]; rfl
  | cons a acts ih =>
    obtain ⟨u, hstep, hrest⟩ := run_cons_eq_some.mp h
    exact run_cons_eq_some.mpr ⟨u.world, step_world hstep, ih hrest⟩

/-! ### Reading the text of a command -/

theorem notMem_decimal {d : Char} (hdigit : d.isDigit = false) (hminus : d ≠ '-') (i : ℤ) :
    d ∉ decimal i := by
  have hdigits : d ∉ Nat.toDigits 10 i.natAbs := fun h => by
    rw [isDigit_of_mem_toDigits h] at hdigit
    cases hdigit
  rw [decimal]
  split
  · rw [List.mem_cons, not_or]
    exact ⟨hminus, hdigits⟩
  · exact hdigits

/-- The characters of a line are those of names, numbers and spaces. -/
theorem notMem_line {d : Char} (hdigit : d.isDigit = false) (hminus : d ≠ '-') (hspace : d ≠ ' ')
    (hnames : ∀ name ∈ ["create_driver", "send_task", "get_status", "get_drivers", "exit"],
      d ∉ name.toList) (c : Command) : d ∉ c.line := by
  have hnumber : ∀ i : Int32, d ∉ ' ' :: decimal i.toInt := fun i => by
    rw [List.mem_cons, not_or]
    exact ⟨hspace, notMem_decimal hdigit hminus i.toInt⟩
  cases c with
  | createDriver => exact hnames "create_driver" (by simp)
  | getDrivers => exact hnames "get_drivers" (by simp)
  | exit => exact hnames "exit" (by simp)
  | other => exact List.not_mem_nil
  | sendTask pid timer =>
    change d ∉ "send_task".toList ++ (' ' :: decimal pid.toInt ++ ' ' :: decimal timer.toInt)
    rw [List.mem_append, List.mem_append, not_or, not_or]
    exact ⟨hnames "send_task" (by simp), hnumber pid, hnumber timer⟩
  | getStatus pid =>
    change d ∉ "get_status".toList ++ ' ' :: decimal pid.toInt
    rw [List.mem_append, not_or]
    exact ⟨hnames "get_status" (by simp), hnumber pid⟩

theorem length_line_lt (c : Command) : c.line.length < 255 := by
  have hnumber : ∀ i : Int32, (' ' :: decimal i.toInt).length ≤ 22 := fun i => by
    have hdecimal := @length_decimal_le i.toInt 20 (by decide) (natAbs_int32 i)
    rw [List.length_cons]
    omega
  cases c with
  | sendTask pid timer =>
    have hname : "send_task".toList.length = 9 := rfl
    have hpid := hnumber pid
    have htimer := hnumber timer
    change ("send_task".toList ++
      (' ' :: decimal pid.toInt ++ ' ' :: decimal timer.toInt)).length < _
    rw [List.length_append, List.length_append, hname]
    omega
  | getStatus pid =>
    have hname : "get_status".toList.length = 10 := rfl
    have hpid := hnumber pid
    change ("get_status".toList ++ ' ' :: decimal pid.toInt).length < _
    rw [List.length_append, hname]
    omega
  | _ => decide

theorem read_text (hstdin : s.stdin = linesOf (c :: cs)) : s.read = some (c, linesOf cs) := by
  have hnewline : '\n' ∉ c.line := notMem_line (by decide) (by decide) (by decide) (by decide) c
  have hnul : nul ∉ c.line := notMem_line (by decide) (by decide) (by decide) (by decide) c
  have htext : s.stdin = c.line ++ '\n' :: linesOf cs := by
    rw [hstdin, linesOf, List.flatMap_cons, List.append_assoc]
    rfl
  have hread : readLine 255 (c.line ++ '\n' :: linesOf cs) = (c.line ++ ['\n'], linesOf cs) :=
    readLine_of_lt hnewline (length_line_lt c)
  have hcstr : cstr (c.line ++ ['\n']) = c.line ++ ['\n'] := by
    apply cstr_of_notMem
    rw [List.mem_append, not_or]
    exact ⟨hnul, by decide⟩
  rw [Session.read, htext, fgets, if_neg (by simp)]
  simp only [bufferSize, Nat.add_one_sub_one, hread, Option.map_some, hcstr,
    removeNewline_append hnewline, commandOf_line]

theorem read_nil (hstdin : s.stdin = linesOf []) : s.read = none := by
  rw [Session.read, hstdin]
  rfl

/-! ### The calls of a session -/

/-- What a command asks a driver. -/
def Command.asked : Command → Option (Int32 × Request)
  | .sendTask pid timer => some (pid, .task timer)
  | .getStatus pid => some (pid, .status)
  | _ => none

/-- What a call of `send_command` asked. -/
def Exchange.asked (e : Exchange) : Int32 × Request := (e.pid, e.request)

/-- A call that a command of its own makes. -/
def Call.own (c : Call) : List (Int32 × Request) :=
  if c.next = none then [(c.pid, c.request)] else []

/-- The call the last command is about to make or has begun. -/
def Pc.pending : Pc → List (Int32 × Request)
  | .cleanup c => c.asked.toList
  | .sending c | .receiving c _ => c.own
  | _ => []

@[simp] theorem Pc.pending_prompt : Pc.prompt.pending = [] := rfl

/-- The dispatcher is in the round of `get_drivers`. -/
def Pc.Listing : Pc → Prop
  | .cleanup .getDrivers | .listing _ => True
  | .sending c | .receiving c _ => c.next ≠ none
  | _ => False

/-- The calls that were made for the commands, among those of `get_drivers`. -/
structure CallsMade (typed : List Command) (w : World) : Prop where
  made : w.pc ≠ .sigpipe →
    (typed.filterMap Command.asked).Sublist (w.exchanges.map Exchange.asked ++ w.pc.pending)
  /-- Without `get_drivers` there are no others. -/
  only : .getDrivers ∉ typed → ¬ w.pc.Listing ∧
    (w.pc ≠ .sigpipe →
      typed.filterMap Command.asked = w.exchanges.map Exchange.asked ++ w.pc.pending) ∧
    w.exchanges.map Exchange.asked <+: typed.filterMap Command.asked

namespace CallsMade

variable {typed : List Command} {u v w : World}

theorem init : CallsMade [] .init where
  made _ := List.Sublist.refl _
  only _ := ⟨id, fun _ => rfl, List.prefix_rfl⟩

/-- No call returns. -/
theorem goesOn (h : CallsMade typed w) (hexchanges : v.exchanges = w.exchanges)
    (hpc : w.pc ≠ .sigpipe) (hpending : v.pc.pending = w.pc.pending)
    (hlisting : v.pc.Listing → w.pc.Listing) : CallsMade typed v where
  made _ := by
    rw [hexchanges, hpending]
    exact h.made hpc
  only hnot := by
    obtain ⟨hlist, heq, hfirst⟩ := h.only hnot
    rw [hexchanges, hpending]
    exact ⟨mt hlisting hlist, fun _ => heq hpc, hfirst⟩

theorem same (h : CallsMade typed w) (hexchanges : v.exchanges = w.exchanges)
    (hpc : v.pc = w.pc) : CallsMade typed v := by
  obtain ⟨hmade, honly⟩ := h
  rw [← hpc, ← hexchanges] at hmade honly
  exact ⟨hmade, honly⟩

theorem killed (h : CallsMade typed w) (hexchanges : v.exchanges = w.exchanges)
    (hpc : v.pc = .sigpipe) : CallsMade typed v where
  made hne := absurd hpc hne
  only hnot := by
    obtain ⟨-, -, hfirst⟩ := h.only hnot
    rw [hexchanges, hpc]
    exact ⟨id, fun hne => absurd rfl hne, hfirst⟩

/-- A call returns. -/
theorem finish (h : CallsMade typed w) {c : Call} {code : ℤ} {response : CString}
    (hexchanges : u.exchanges = w.exchanges) (hpc : w.pc ≠ .sigpipe)
    (hpending : w.pc.pending = c.own) (hlisting : c.next ≠ none → w.pc.Listing) :
    CallsMade typed (u.finish c code response) := by
  have hmap : (u.finish c code response).exchanges.map Exchange.asked =
      w.exchanges.map Exchange.asked ++ [(c.pid, c.request)] := by
    rw [World.finish, List.map_append, hexchanges]
    rfl
  have hnone : (u.finish c code response).pc.pending = [] := by
    rw [World.finish]
    cases c.next <;> rfl
  have hmade := h.made hpc
  rw [hpending] at hmade
  refine ⟨fun _ => ?_, fun hnot => ?_⟩
  · rw [hmap, hnone, List.append_nil]
    refine hmade.trans (List.Sublist.append_left ?_ _)
    rw [Call.own]
    split
    · exact List.Sublist.refl _
    · exact List.nil_sublist _
  · obtain ⟨hlist, heq, -⟩ := h.only hnot
    have hnext : c.next = none := by
      by_contra hsome
      exact hlist (hlisting hsome)
    have hown : c.own = [(c.pid, c.request)] := if_pos hnext
    have heq := heq hpc
    rw [hpending, hown] at heq
    rw [hmap, hnone, List.append_nil, heq]
    refine ⟨?_, fun _ => rfl, List.prefix_rfl⟩
    simp [World.finish, hnext, Pc.Listing]

theorem type (h : CallsMade typed w) (hpc : w.pc = .prompt) (c : Command) :
    CallsMade (typed ++ [c]) { w with pc := .cleanup c } := by
  have hmade := h.made (by simp [hpc])
  have hasked : [c].filterMap Command.asked = c.asked.toList := by
    cases c <;> rfl
  rw [hpc, Pc.pending_prompt, List.append_nil] at hmade
  refine ⟨fun _ => ?_, fun hnot => ?_⟩
  · rw [List.filterMap_append, hasked]
    exact hmade.append_right _
  · rw [List.mem_append, not_or, List.mem_singleton] at hnot
    obtain ⟨-, heq, hfirst⟩ := h.only hnot.1
    have heq := heq (by simp [hpc])
    rw [hpc, Pc.pending_prompt, List.append_nil] at heq
    rw [List.filterMap_append, hasked]
    refine ⟨?_, fun _ => by rw [heq]; rfl, hfirst.trans (List.prefix_append _ _)⟩
    cases c <;> simp_all [Pc.Listing]

/-! ### Moves of the dispatcher -/

theorem dispatch (h : CallsMade typed w) {command : Command} (hpc : w.pc = .cleanup command) :
    CallsMade typed (w.dispatch command) := by
  have hne : w.pc ≠ .sigpipe := by simp [hpc]
  cases command with
  | getDrivers =>
    rw [World.dispatch]
    split
    · exact h.goesOn rfl hne (by rw [hpc]; rfl) (by simp [Pc.Listing])
    · exact h.goesOn rfl hne (by rw [hpc]; rfl) (by simp [hpc, Pc.Listing])
  | createDriver | exit | other =>
    exact h.goesOn rfl hne (by rw [hpc]; rfl) (by simp [World.dispatch, Pc.Listing])
  | sendTask pid timer | getStatus pid =>
    exact h.goesOn rfl hne (by rw [hpc]; rfl) (by simp [World.dispatch, Pc.Listing])

theorem list (h : CallsMade typed w) {i : ℕ} (hpc : w.pc = .listing i) :
    CallsMade typed (w.list i) := by
  have hne : w.pc ≠ .sigpipe := by simp [hpc]
  have hpending : w.pc.pending = [] := by rw [hpc]; rfl
  have hlisting : w.pc.Listing := by rw [hpc]; trivial
  rw [World.list]
  split
  · exact h.goesOn rfl hne hpending.symm fun _ => hlisting
  · split <;> exact h.goesOn rfl hne hpending.symm fun _ => hlisting

theorem send (h : CallsMade typed w) {c : Call} (hpc : w.pc = .sending c) :
    CallsMade typed (w.send c) := by
  have hne : w.pc ≠ .sigpipe := by simp [hpc]
  have hpending : w.pc.pending = c.own := by rw [hpc]; rfl
  have hlisting : w.pc.Listing ↔ c.next ≠ none := by rw [hpc]; rfl
  rw [World.send]
  split
  · exact h.finish rfl hne hpending hlisting.mpr
  · split
    · split
      · exact h.goesOn rfl hne hpending.symm hlisting.mpr
      · exact h.killed rfl rfl
    · exact h.goesOn rfl hne hpending.symm hlisting.mpr

theorem receive (h : CallsMade typed w) {c : Call} {fd : ℕ} (hpc : w.pc = .receiving c fd)
    (hreceive : w.receive c fd = some v) : CallsMade typed v := by
  have hne : w.pc ≠ .sigpipe := by simp [hpc]
  have hpending : w.pc.pending = c.own := by rw [hpc]; rfl
  have hlisting : c.next ≠ none → w.pc.Listing := by rw [hpc]; exact id
  rw [World.receive] at hreceive
  split at hreceive
  · split at hreceive
    · split at hreceive
      · cases hreceive
      · cases hreceive
        exact h.finish rfl hne hpending hlisting
    · cases hreceive
      exact h.finish rfl hne hpending hlisting
  · cases hreceive
    exact h.finish rfl hne hpending hlisting

theorem create (h : CallsMade typed w) {o : Outcome} (hpc : w.pc = .creating)
    (hcreate : w.createDriver o = some v) : CallsMade typed v := by
  have hne : w.pc ≠ .sigpipe := by simp [hpc]
  have hpending : ([] : List (Int32 × Request)) = w.pc.pending := by rw [hpc]; rfl
  rcases createDriver_cases hcreate with
    ⟨-, rfl⟩ | ⟨drivers, slot, -, ⟨u, l, hopens, -, rfl⟩ | ⟨r₁, w₁, r₂, w₂, pid, hforks⟩⟩
  · exact h.goesOn rfl hne hpending False.elim
  · obtain ⟨-, -, -, hexchanges, -⟩ := hopens.frame
    exact h.goesOn hexchanges hne hpending False.elim
  · rw [hforks.eq]
    exact h.goesOn rfl hne hpending False.elim

theorem reap (h : CallsMade typed w) {k : ℕ} (hreap : w.reap k = some v) : CallsMade typed v := by
  rw [World.reap] at hreap
  split at hreap
  · split at hreap
    · dsimp only at hreap
      split at hreap
      · cases hreap
        exact h.same rfl rfl
      · obtain ⟨d, -, rfl⟩ := Option.map_eq_some_iff.mp hreap
        exact h.same rfl rfl
    · cases hreap
  · cases hreap

theorem step (h : CallsMade typed w) (hother : ∀ c, a ≠ .type c)
    (hstep : Taxi.step w a = some v) : CallsMade typed v := by
  cases a with
  | type c => exact absurd rfl (hother c)
  | endOfInput =>
    simp only [Taxi.step] at hstep
    split at hstep
    · rename_i hpc
      cases hstep
      exact h.goesOn rfl (by simp [hpc]) (by rw [hpc]; rfl) False.elim
    · cases hstep
  | reap k => exact h.reap hstep
  | collected =>
    simp only [Taxi.step] at hstep
    split at hstep
    · rename_i hpc
      split at hstep
      · cases hstep
        exact h.dispatch hpc
      · cases hstep
    · cases hstep
  | create o =>
    simp only [Taxi.step] at hstep
    split at hstep
    · rename_i hpc
      exact h.create hpc hstep
    · cases hstep
  | list =>
    simp only [Taxi.step] at hstep
    split at hstep
    · rename_i hpc
      cases hstep
      exact h.list hpc
    · cases hstep
  | send =>
    simp only [Taxi.step] at hstep
    split at hstep
    · rename_i hpc
      cases hstep
      exact h.send hpc
    · cases hstep
  | receive =>
    simp only [Taxi.step] at hstep
    split at hstep
    · rename_i hpc
      exact h.receive hpc hstep
    · cases hstep
  | die k =>
    obtain ⟨p, -, rfl⟩ := Option.map_eq_some_iff.mp hstep
    exact h.same rfl rfl
  | advance k now =>
    obtain ⟨p, -, hadvance⟩ := Option.bind_eq_some_iff.mp hstep
    obtain ⟨p', -, heq⟩ := advance_driverMove hadvance
    rw [heq]
    exact h.same rfl rfl
  | timeOut k =>
    obtain ⟨p, -, htimeOut⟩ := Option.bind_eq_some_iff.mp hstep
    obtain ⟨p', -, heq⟩ := timeOut_driverMove htimeOut
    rw [heq]
    exact h.same rfl rfl

end CallsMade

/-! ### The main result -/

/-- The commands so far are the first ones of the text, and the lines of the others are left. -/
structure Follows (cs : List Command) (s : Session) : Prop where
  text : ∃ todo, cs = s.typed ++ todo ∧ s.stdin = linesOf todo
  calls : CallsMade s.typed s.world

theorem follows_preserved : Preserved Session.step (Follows cs) := by
  intro s a t h hstep
  obtain ⟨todo, hcs, hstdin⟩ := h.text
  by_cases htype : ∃ c, a = .type c
  · obtain ⟨c, rfl⟩ := htype
    obtain ⟨world, hread, hworld, ht⟩ := step_type_eq_some hstep
    cases todo with
    | nil =>
      rw [read_nil hstdin] at hread
      cases hread
    | cons d todo =>
      rw [read_text hstdin] at hread
      obtain ⟨rfl, hrest⟩ := Prod.mk.inj (Option.some.inj hread)
      simp only [Taxi.step] at hworld
      split at hworld
      · rename_i hpc
        cases hworld
        rw [ht]
        exact ⟨⟨todo, by rw [hcs, List.append_assoc]; rfl, hrest.symm⟩, h.calls.type hpc d⟩
      · cases hworld
  · rw [not_exists] at htype
    obtain ⟨world, hworld, rfl⟩ := step_other_eq_some htype hstep
    exact ⟨⟨todo, hcs, hstdin⟩, h.calls.step htype hworld⟩

/-- Whatever the drivers do in between, the dispatcher takes the commands of the text one by
one. When it is back at its prompt, each `send_task` and `get_status` has been one call, to the
driver and with the time that were typed and in this order; other calls come from
`get_drivers` only. -/
theorem session_requests {acts : List Action}
    (hrun : run Session.step (.init (linesOf cs)) acts = some s) :
    s.typed <+: cs ∧ s.stdin = linesOf (cs.drop s.typed.length) ∧
      (s.world.pc = .prompt →
        (s.typed.filterMap Command.asked).Sublist (s.world.exchanges.map Exchange.asked)) ∧
      (.getDrivers ∉ cs → s.world.exchanges.map Exchange.asked <+: cs.filterMap Command.asked ∧
        (s.world.pc = .prompt →
          s.world.exchanges.map Exchange.asked = s.typed.filterMap Command.asked)) := by
  have hinit : Follows cs (.init (linesOf cs)) := ⟨⟨cs, rfl, rfl⟩, .init⟩
  obtain ⟨⟨todo, hcs, hstdin⟩, hmade, honly⟩ := follows_preserved.run hinit hrun
  have hfirst : s.typed <+: cs := ⟨todo, hcs.symm⟩
  refine ⟨hfirst, ?_, fun hpc => ?_, fun hnot => ?_⟩
  · rw [hstdin, hcs, List.drop_left]
  · have hsub := hmade (by simp [hpc])
    rwa [hpc, Pc.pending_prompt, List.append_nil] at hsub
  · have hnot' : .getDrivers ∉ s.typed := fun hmem => hnot (hfirst.subset hmem)
    obtain ⟨-, heq, hcalls⟩ := honly hnot'
    refine ⟨hcalls.trans (hfirst.filterMap _), fun hpc => ?_⟩
    have heq := heq (by simp [hpc])
    rw [hpc, Pc.pending_prompt, List.append_nil] at heq
    exact heq.symm

/-- A driver is created and sent a task; another pid is unknown. -/
def oneDriver : List Command := [.createDriver, .sendTask 10 (-3), .getStatus 7]

def oneDriverMoves : List Action :=
  [.type .createDriver, .collected, .create (.forked 3 4 5 6 10), .type (.sendTask 10 (-3)),
    .collected, .send, .advance 0 0, .advance 0 0, .advance 0 0, .advance 0 0, .advance 0 0,
    .receive, .type (.getStatus 7), .collected, .send]

theorem session_requests_oneDriver :
    ∃ s, run Session.step (.init (linesOf oneDriver)) oneDriverMoves = some s ∧
      s.world.out = [.created 10 0, .taskSent 10 (-3), .text "Driver 7 not found".toList] ∧
      s.world.exchanges.map Exchange.asked = s.typed.filterMap Command.asked := by
  have hend : (run Session.step (.init (linesOf oneDriver)) oneDriverMoves).map
      (fun s => (s.world.pc, s.world.out)) = some (.prompt,
        [.created 10 0, .taskSent 10 (-3), .text "Driver 7 not found".toList]) := by decide
  obtain ⟨s, hrun, hpair⟩ := Option.map_eq_some_iff.mp hend
  obtain ⟨hpc, hout⟩ := Prod.mk.inj hpair
  exact ⟨s, hrun, hout, ((session_requests hrun).2.2.2 (by decide)).2 hpc⟩

end UnixLessons.Taxi

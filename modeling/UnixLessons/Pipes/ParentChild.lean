import UnixLessons.Pipes.Pipe
import UnixLessons.Transition.Completion

/-!
# A parent writes to its child

`myPipe.c`: the parent writes its message into a pipe and waits for the child, which
copies the pipe to the standard output byte by byte until `read` finds the end. The child
has the write end too, so it would wait for itself had it not closed it.

## Main results

* `Sound`: where each byte of the message is, and which descriptors are open
* `message_delivered`: in every order of steps the message is shown, and both processes end
-/

namespace UnixLessons.Pipes.MyPipe

open Transition

inductive ParentPc where
  | pipe
  | fork
  | closeRead
  | write (rest : List Char)
  | closeWrite
  | wait
  | printf
  | done
  | failed (error : String)
  | killed
deriving DecidableEq

inductive ChildPc where
  | unborn
  | closeWrite
  | read
  | write (buf : Char)
  | closeRead
  | zombie
  | reaped
deriving DecidableEq

/-- The two processes, the pipe between them, and the standard output they share. -/
structure State where
  parent : ParentPc
  child : ChildPc
  pipe : Pipe Char
  out : List Char

/-- The outcomes of `pipe` and `fork`, the bytes that the kernel takes at once from the
parent's `write`, and the other statements. -/
inductive Action where
  | call (ok : Bool)
  | transfer (n : ℕ)
  | parent
  | child
deriving DecidableEq

def start : State := ⟨.pipe, .unborn, .new Char 0 0, []⟩

/-- What the source writes. -/
def hi : List Char := "Hi".toList

/-- The calls that may fail. -/
def call (s : State) (ok : Bool) : Option State :=
  match s.parent, ok with
  | .pipe, true => some { s with parent := .fork, pipe := .new Char 1 1 }
  | .pipe, false => some { s with parent := .failed "pipe" }
  | .fork, true => some { s with parent := .closeRead, child := .closeWrite, pipe := s.pipe.share }
  | .fork, false =>
    some { s with parent := .failed "fork", pipe := s.pipe.closeRead.closeWrite }
  | _, _ => none

/-- The kernel puts bytes of the parent's `write` into the pipe, as far as there is room;
without a reader the signal `SIGPIPE` ends the parent. -/
def transfer (capacity : ℕ) (s : State) (n : ℕ) : Option State :=
  match s.parent with
  | .write rest =>
    if rest = [] then none
    else if s.pipe.readers = 0 then some { s with parent := .killed, pipe := s.pipe.closeWrite }
    else if 0 < n ∧ n ≤ rest.length ∧ s.pipe.buffer.length + n ≤ capacity then
      some { s with parent := .write (rest.drop n), pipe := s.pipe.write (rest.take n) }
    else none
  | _ => none

def parent (msg : List Char) (s : State) : Option State :=
  match s.parent with
  | .closeRead => some { s with parent := .write msg, pipe := s.pipe.closeRead }
  | .write [] => some { s with parent := .closeWrite }
  | .closeWrite => some { s with parent := .wait, pipe := s.pipe.closeWrite }
  | .wait => if s.child = .zombie then some { s with parent := .printf, child := .reaped } else none
  | .printf => some { s with parent := .done, out := s.out ++ ['\n', '\n'] }
  | _ => none

def child (s : State) : Option State :=
  match s.child with
  | .closeWrite => some { s with child := .read, pipe := s.pipe.closeWrite }
  | .read =>
    (s.pipe.read 1).map fun (bytes, pipe) =>
      match bytes with
      | [] => { s with child := .closeRead, pipe }
      | buf :: _ => { s with child := .write buf, pipe }
  | .write buf => some { s with child := .read, out := s.out ++ [buf] }
  | .closeRead => some { s with child := .zombie, pipe := s.pipe.closeRead }
  | _ => none

/-- One step of either process, in a run that writes `msg`. -/
def step (capacity : ℕ) (msg : List Char) (s : State) : Action → Option State
  | .call ok => call s ok
  | .transfer n => transfer capacity s n
  | .parent => parent msg s
  | .child => child s

variable {capacity n : ℕ} {msg : List Char} {s t : State} {a : Action} {acts : List Action}

/-! ### Where the bytes are and who has which end -/

/-- What the parent has still to write. -/
@[simp] def ParentPc.rest (msg : List Char) : ParentPc → List Char
  | .write rest => rest
  | .closeWrite | .wait | .printf | .done => []
  | _ => msg

/-- What the child has read and not written. -/
@[simp] def ChildPc.holds : ChildPc → List Char
  | .write buf => [buf]
  | _ => []

@[simp] def ParentPc.readers : ParentPc → ℕ
  | .fork | .closeRead => 1
  | _ => 0

@[simp] def ParentPc.writers : ParentPc → ℕ
  | .fork | .closeRead | .write _ | .closeWrite => 1
  | _ => 0

@[simp] def ChildPc.readers : ChildPc → ℕ
  | .unborn | .zombie | .reaped => 0
  | _ => 1

@[simp] def ChildPc.writers : ChildPc → ℕ
  | .closeWrite => 1
  | _ => 0

/-- What the parent prints at its end. -/
@[simp] def ParentPc.printed : ParentPc → List Char
  | .done => ['\n', '\n']
  | _ => []

/-- The child has seen the end of the pipe. -/
@[simp] def ChildPc.AtEnd : ChildPc → Prop
  | .closeRead | .zombie | .reaped => True
  | _ => False

/-- The child there is at each place of the parent. -/
@[simp] def ParentPc.Fits (child : ChildPc) : ParentPc → Prop
  | .pipe | .fork | .failed _ => child = .unborn
  | .closeRead | .write _ | .closeWrite | .wait => child ≠ .unborn ∧ child ≠ .reaped
  | .printf | .done => child = .reaped
  | .killed => False

/-- The child's `read` finds the end of the pipe, or the next byte. -/
theorem child_read {pc : ParentPc} {p : Pipe Char} {out : List Char}
    (hstep : child ⟨pc, .read, p, out⟩ = some t) :
    (p.buffer = [] ∧ p.writers = 0 ∧ t = ⟨pc, .closeRead, p, out⟩) ∨
      ∃ b bs, p.buffer = b :: bs ∧ t = ⟨pc, .write b, p.take 1, out⟩ := by
  obtain ⟨⟨bs, q⟩, hread, rfl⟩ := Option.map_eq_some_iff.mp hstep
  rcases Pipe.read_cases hread with ⟨hempty, hwriters, rfl, rfl⟩ | ⟨hbuffer, rfl, rfl⟩
  · exact Or.inl ⟨hempty, hwriters, rfl⟩
  · obtain ⟨b, bs, hcons⟩ := List.exists_cons_of_ne_nil hbuffer
    refine Or.inr ⟨b, bs, hcons, ?_⟩
    simp only at hcons
    simp [hcons]

structure Sound (msg : List Char) (s : State) : Prop where
  bytes : s.pipe.sent ++ s.parent.rest msg = msg
  shown : s.pipe.received ++ s.parent.printed = s.out ++ s.child.holds
  readers : s.pipe.readers = s.parent.readers + s.child.readers
  writers : s.pipe.writers = s.parent.writers + s.child.writers
  ended : s.child.AtEnd → s.pipe.buffer = [] ∧ s.parent.writers = 0
  fits : s.parent.Fits s.child

namespace Sound

theorem start : Sound msg start := by
  constructor <;> simp [MyPipe.start, Pipe.new, Pipe.sent, ParentPc.rest, ParentPc.printed,
    ChildPc.holds, ParentPc.readers, ChildPc.readers, ParentPc.writers, ChildPc.writers,
    ChildPc.AtEnd, ParentPc.Fits]

theorem call {ok : Bool} (h : Sound msg s) (hstep : call s ok = some t) : Sound msg t := by
  obtain ⟨pc, cpc, p, out⟩ := s
  obtain ⟨bytes, shown, readers, writers, ended, fits⟩ := h
  cases pc with
  | pipe =>
    obtain rfl : cpc = .unborn := fits
    have hsent : p.sent = [] := List.append_left_eq_self.mp bytes
    have hout : out = [] := by simpa [(List.append_eq_nil_iff.mp hsent).1] using shown.symm
    subst hout
    cases ok with
    | true =>
      obtain rfl := Option.some.inj hstep
      exact ⟨rfl, rfl, rfl, rfl, fun h => h.elim, rfl⟩
    | false =>
      obtain rfl := Option.some.inj hstep
      exact ⟨bytes, shown, readers, writers, ended, rfl⟩
  | fork =>
    obtain rfl : cpc = .unborn := fits
    simp only [ParentPc.readers, ChildPc.readers] at readers
    simp only [ParentPc.writers, ChildPc.writers] at writers
    cases ok with
    | true =>
      obtain rfl := Option.some.inj hstep
      refine ⟨bytes, shown, ?_, ?_, fun h => h.elim, by simp⟩
      · simp [Pipe.share, readers]
      · simp [Pipe.share, writers]
    | false =>
      obtain rfl := Option.some.inj hstep
      refine ⟨bytes, shown, ?_, ?_, fun h => h.elim, rfl⟩
      · simp [Pipe.closeRead, Pipe.closeWrite, readers]
      · simp [Pipe.closeRead, Pipe.closeWrite, writers]
  | _ => cases hstep

theorem transfer (h : Sound msg s) (hstep : transfer capacity s n = some t) : Sound msg t := by
  obtain ⟨pc, cpc, p, out⟩ := s
  obtain ⟨bytes, shown, readers, writers, ended, fits⟩ := h
  cases pc with
  | write rest =>
    simp only [MyPipe.transfer] at hstep
    split_ifs at hstep with hrest hreaders hroom
    · -- the child keeps its read end until it has seen the end of the pipe
      cases cpc <;> simp_all
    · obtain rfl := Option.some.inj hstep
      refine ⟨?_, shown, readers, writers, fun hend => ?_, fits⟩
      · rw [Pipe.sent_write, List.append_assoc]
        simpa using bytes
      · simpa using ended hend
  | _ => cases hstep

theorem parent (h : Sound msg s) (hstep : parent msg s = some t) : Sound msg t := by
  obtain ⟨pc, cpc, p, out⟩ := s
  obtain ⟨bytes, shown, readers, writers, ended, fits⟩ := h
  cases pc with
  | closeRead =>
    obtain rfl := Option.some.inj hstep
    refine ⟨bytes, shown, ?_, writers, ended, fits⟩
    simp only [Pipe.closeRead, ParentPc.readers] at readers ⊢
    omega
  | write rest =>
    cases rest with
    | nil =>
      obtain rfl := Option.some.inj hstep
      exact ⟨bytes, shown, readers, writers, ended, fits⟩
    | cons => cases hstep
  | closeWrite =>
    obtain rfl := Option.some.inj hstep
    refine ⟨bytes, shown, readers, ?_, fun hend => ⟨(ended hend).1, rfl⟩, fits⟩
    simp only [Pipe.closeWrite, ParentPc.writers] at writers ⊢
    omega
  | wait =>
    simp only [MyPipe.parent] at hstep
    split_ifs at hstep with hzombie
    obtain rfl := Option.some.inj hstep
    subst hzombie
    exact ⟨bytes, shown, readers, writers, ended, rfl⟩
  | printf =>
    obtain rfl := Option.some.inj hstep
    obtain rfl : cpc = .reaped := fits
    refine ⟨bytes, ?_, readers, writers, ended, rfl⟩
    simpa using shown
  | _ => cases hstep

/-- The child moves on; it is there before and after. -/
theorem fits_of_child {pc : ParentPc} {c : ChildPc} (c' : ChildPc) (h : pc.Fits c)
    (hc : c ≠ .unborn ∧ c ≠ .reaped) (hc' : c' ≠ .unborn ∧ c' ≠ .reaped) :
    pc.Fits c' ∧ pc.printed = [] := by
  cases pc <;> simp_all

theorem child (h : Sound msg s) (hstep : child s = some t) : Sound msg t := by
  obtain ⟨pc, cpc, p, out⟩ := s
  obtain ⟨bytes, shown, readers, writers, ended, fits⟩ := h
  cases cpc with
  | closeWrite =>
    obtain ⟨fits', -⟩ := fits_of_child .read fits (by simp) (by simp)
    obtain rfl := Option.some.inj hstep
    refine ⟨bytes, shown, readers, ?_, fun h => h.elim, fits'⟩
    simp only [Pipe.closeWrite, ChildPc.writers] at writers ⊢
    omega
  | read =>
    rcases child_read hstep with ⟨hempty, hwriters, rfl⟩ | ⟨b, bs, hcons, rfl⟩
    · obtain ⟨fits', -⟩ := fits_of_child .closeRead fits (by simp) (by simp)
      refine ⟨bytes, shown, readers, writers, fun _ => ⟨hempty, ?_⟩, fits'⟩
      simp only at writers ⊢
      omega
    · obtain ⟨fits', hprinted⟩ := fits_of_child (.write b) fits (by simp) (by simp)
      refine ⟨?_, ?_, readers, writers, fun h => h.elim, fits'⟩
      · rw [Pipe.sent_take]
        exact bytes
      · simp only [hprinted, List.append_nil, ChildPc.holds] at shown ⊢
        simp [Pipe.take, hcons, shown]
  | write buf =>
    obtain ⟨fits', hprinted⟩ := fits_of_child .read fits (by simp) (by simp)
    obtain rfl := Option.some.inj hstep
    refine ⟨bytes, ?_, readers, writers, fun h => h.elim, fits'⟩
    simpa [hprinted] using shown
  | closeRead =>
    obtain ⟨fits', -⟩ := fits_of_child .zombie fits (by simp) (by simp)
    obtain rfl := Option.some.inj hstep
    refine ⟨bytes, shown, ?_, writers, ended, fits'⟩
    simp only [Pipe.closeRead, ChildPc.readers] at readers ⊢
    omega
  | _ => cases hstep

theorem preserved : Preserved (step capacity msg) (Sound msg) := by
  intro s a t h hstep
  cases a with
  | call ok => exact h.call hstep
  | transfer n => exact h.transfer hstep
  | parent => exact h.parent hstep
  | child => exact h.child hstep

/-- When the child has seen the end of the pipe, it has read all. -/
theorem received_eq (h : Sound msg s) (hend : s.child.AtEnd) (hrest : s.parent.rest msg = []) :
    s.pipe.received = msg := by
  have hbytes := h.bytes
  rwa [hrest, List.append_nil, Pipe.sent, (h.ended hend).1, List.append_nil] at hbytes

/-- What is shown is a part of what was sent, from its start. -/
theorem out_isPrefix (h : Sound msg s) : s.out <+: msg ++ ['\n', '\n'] := by
  have hreceived : s.pipe.received <+: msg :=
    s.pipe.received_isPrefix.trans ⟨_, h.bytes⟩
  have hshown : s.out <+: s.pipe.received ++ s.parent.printed := ⟨_, h.shown.symm⟩
  have hfits := h.fits
  cases hpc : s.parent with
  | done =>
    -- the child has been reaped, and has copied everything before
    rw [hpc] at hshown hfits
    have hchild : s.child = .reaped := hfits
    have hall := h.received_eq (by rw [hchild]; trivial) (by rw [hpc]; rfl)
    rwa [hall] at hshown
  | _ =>
    simp only [hpc, ParentPc.printed, List.append_nil] at hshown
    exact hshown.trans (hreceived.trans (List.prefix_append ..))

end Sound

/-! ### Both processes come to their end -/

/-- The statements the parent has still to execute. -/
def ParentPc.left (length : ℕ) : ParentPc → ℕ
  | .pipe => 7 + length
  | .fork => 6 + length
  | .closeRead => 5 + length
  | .write rest => 4 + rest.length
  | .closeWrite => 3
  | .wait => 2
  | .printf => 1
  | .done | .failed _ | .killed => 0

/-- The statements the child has still to execute, two for each byte to come. -/
def ChildPc.left (toCome : ℕ) : ChildPc → ℕ
  | .unborn => 7 + 2 * toCome
  | .closeWrite => 6 + 2 * toCome
  | .read => 4 + 2 * toCome
  | .write _ => 5 + 2 * toCome
  | .closeRead => 2
  | .zombie => 1
  | .reaped => 0

def State.left (msg : List Char) (s : State) : ℕ :=
  s.parent.left msg.length + s.child.left (msg.length - s.pipe.received.length)

theorem received_lt (h : Sound msg s) (hbuffer : s.pipe.buffer ≠ []) :
    s.pipe.received.length < msg.length := by
  have hlength := congrArg List.length h.bytes
  have hpos := List.length_pos_iff.mpr hbuffer
  simp only [Pipe.sent, List.length_append] at hlength
  omega

theorem left_lt (h : Sound msg s) (hstep : step capacity msg s a = some t) :
    t.left msg < s.left msg := by
  obtain ⟨pc, cpc, p, out⟩ := s
  cases a with
  | call ok =>
    have hfits := h.fits
    cases pc with
    | pipe =>
      obtain rfl : cpc = .unborn := hfits
      have hsent : p.sent = [] := List.append_left_eq_self.mp h.bytes
      have hreceived : p.received = [] := (List.append_eq_nil_iff.mp hsent).1
      cases ok <;> obtain rfl := Option.some.inj hstep
      · simp [State.left, ParentPc.left]
      · simp [State.left, ParentPc.left, Pipe.new, hreceived]
    | fork =>
      obtain rfl : cpc = .unborn := hfits
      cases ok <;> obtain rfl := Option.some.inj hstep
      · simp only [State.left, ParentPc.left, Pipe.closeRead, Pipe.closeWrite]
        omega
      · simp only [State.left, ParentPc.left, ChildPc.left, Pipe.share]
        omega
    | _ => cases hstep
  | transfer n =>
    cases pc with
    | write rest =>
      simp only [step, transfer] at hstep
      split_ifs at hstep with hrest hreaders hroom
      · obtain rfl := Option.some.inj hstep
        simp only [State.left, ParentPc.left, Pipe.closeWrite]
        omega
      · obtain rfl := Option.some.inj hstep
        simp only [State.left, ParentPc.left, Pipe.write, List.length_drop]
        omega
    | _ => cases hstep
  | parent =>
    cases pc with
    | write rest =>
      cases rest with
      | nil =>
        obtain rfl := Option.some.inj hstep
        simp [State.left, ParentPc.left]
      | cons => cases hstep
    | wait =>
      simp only [step, parent] at hstep
      split_ifs at hstep with hzombie
      obtain rfl := Option.some.inj hstep
      subst hzombie
      simp [State.left, ParentPc.left, ChildPc.left]
    | closeRead | closeWrite | printf =>
      obtain rfl := Option.some.inj hstep
      simp [State.left, ParentPc.left, Pipe.closeRead, Pipe.closeWrite]
    | _ => cases hstep
  | child =>
    cases cpc with
    | read =>
      rcases child_read hstep with ⟨hempty, hwriters, rfl⟩ | ⟨b, bs, hcons, rfl⟩
      · simp only [State.left, ChildPc.left]
        omega
      · have hlt : p.received.length < msg.length :=
          received_lt h (by simp [hcons])
        simp only [State.left, ChildPc.left, Pipe.take, hcons, List.length_append,
          List.take_succ_cons, List.take_zero, List.length_singleton]
        omega
    | closeWrite | write | closeRead =>
      obtain rfl := Option.some.inj hstep
      simp [State.left, ChildPc.left, Pipe.closeWrite]
    | _ => cases hstep

/-- How the program can end. -/
inductive Ended (msg : List Char) (s : State) : Prop
  /-- All of the message has been shown, nobody is left, and no descriptor is open. -/
  | shown (hparent : s.parent = .done) (hchild : s.child = .reaped)
      (hout : s.out = msg ++ ['\n', '\n'])
      (hclosed : s.pipe.readers = 0 ∧ s.pipe.writers = 0)
  /-- There was no pipe or no child, and nothing has been shown. -/
  | failed (error : String) (hparent : s.parent = .failed error) (hchild : s.child = .unborn)
      (hout : s.out = [])

/-- A child that cannot move waits for bytes, or does not exist, or has ended. -/
theorem child_blocked {pc : ParentPc} {cpc : ChildPc} {p : Pipe Char} {out : List Char}
    (h : child ⟨pc, cpc, p, out⟩ = none) (hunborn : cpc ≠ .unborn) (hreaped : cpc ≠ .reaped) :
    cpc = .zombie ∨ (cpc = .read ∧ p.buffer = [] ∧ p.writers ≠ 0) := by
  cases cpc with
  | zombie => exact Or.inl rfl
  | read => exact Or.inr ⟨rfl, Pipe.read_eq_none_iff.mp (Option.map_eq_none_iff.mp h)⟩
  | unborn => exact absurd rfl hunborn
  | reaped => exact absurd rfl hreaped
  | closeWrite | write | closeRead => cases h

/-- While the parent writes or waits, one of the two can move. -/
theorem ended_of_stuck (hcapacity : 0 < capacity) (h : Sound msg s)
    (hstuck : Stuck (step capacity msg) s) : Ended msg s := by
  have hcall := hstuck (.call true)
  have htransfer := hstuck (.transfer 1)
  have hparent := hstuck .parent
  have hchild := hstuck .child
  have hsound := h
  obtain ⟨pc, cpc, p, out⟩ := s
  obtain ⟨bytes, shown, readers, writers, ended, fits⟩ := h
  simp only [step] at hcall htransfer hparent hchild
  cases pc with
  | pipe | fork => cases hcall
  | closeRead | closeWrite | printf => cases hparent
  | killed => exact fits.elim
  | failed error =>
    obtain rfl : cpc = .unborn := fits
    have hsent : p.sent = [] := List.append_left_eq_self.mp bytes
    have hout : out = [] := by simpa [(List.append_eq_nil_iff.mp hsent).1] using shown.symm
    exact .failed error rfl rfl hout
  | done =>
    obtain rfl : cpc = .reaped := fits
    have hall := hsound.received_eq trivial rfl
    simp only [ParentPc.printed, ChildPc.holds, List.append_nil] at shown
    exact .shown rfl rfl (hall ▸ shown.symm) ⟨readers, writers⟩
  | wait =>
    exfalso
    rcases child_blocked hchild fits.1 fits.2 with rfl | ⟨rfl, -, hwriters⟩
    · cases hparent
    · exact hwriters writers
  | write rest =>
    exfalso
    cases rest with
    | nil => cases hparent
    | cons c cs =>
      simp only [transfer, List.cons_ne_nil, if_false] at htransfer
      split_ifs at htransfer with hreaders hroom
      rcases child_blocked hchild fits.1 fits.2 with rfl | ⟨rfl, hempty, -⟩
      · -- the child has ended only after the parent has closed its write end
        have hclosed := (ended trivial).2
        cases hclosed
      · -- the child waits for an empty pipe, where there is room
        refine hroom ⟨Nat.one_pos, Nat.succ_pos _, ?_⟩
        rw [hempty]
        exact hcapacity

/-- The parent's message reaches the standard output in every order of steps: at any time
a part of it from its start is there; no run has more than so many steps; and when
neither process can move, all has been shown and nothing is left, or `pipe` or `fork`
has failed. -/
theorem message_delivered (hcapacity : 0 < capacity)
    (hrun : run (step capacity msg) start acts = some s) :
    s.out <+: msg ++ ['\n', '\n'] ∧ acts.length ≤ 14 + 3 * msg.length ∧
      (Stuck (step capacity msg) s → Ended msg s) := by
  have hsound := Sound.preserved.run .start hrun
  refine ⟨hsound.out_isPrefix, ?_, ended_of_stuck hcapacity hsound⟩
  have hlength := Sound.preserved.size_add_length_le (fun _ _ _ => left_lt) .start hrun
  have hstart : start.left msg = 14 + 3 * msg.length := by
    simp only [State.left, start, ParentPc.left, ChildPc.left, Pipe.new, List.length_nil]
    omega
  omega

/-- Both steps of the child for the first byte come before the parent writes the second. -/
theorem message_delivered_hi :
    ∃ acts s, run (step 1 hi) start acts = some s ∧ s.out = "Hi\n\n".toList ∧
      acts.length ≤ 14 + 3 * hi.length ∧ (Stuck (step 1 hi) s → Ended hi s) := by
  let acts : List Action := [.call true, .call true, .child, .parent, .transfer 1, .child, .child,
    .transfer 1, .parent, .child, .parent, .child, .child, .child, .parent, .parent]
  have hend : (run (step 1 hi) start acts).map State.out = some "Hi\n\n".toList := by decide
  obtain ⟨s, hrun, hout⟩ := Option.map_eq_some_iff.mp hend
  exact ⟨acts, s, hrun, hout, (message_delivered Nat.one_pos hrun).2⟩

end UnixLessons.Pipes.MyPipe

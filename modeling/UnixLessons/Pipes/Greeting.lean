import Mathlib.Algebra.Order.BigOperators.Group.Finset
import UnixLessons.Pipes.Fifo
import UnixLessons.Transition.Completion

/-!
# Who gets the greeting?

The server waits until somebody has its FIFO open, so it writes for a reader that is there.
One read takes all of the greeting. A client that comes in time but reads later finds the
end of the FIFO, and one that has opened a FIFO to which no server comes waits for ever.

## Main results

* `Sound`: who has come to the FIFO, and where the greeting is
* `one_greeting`: who gets the greeting, and who waits for ever
-/

namespace UnixLessons.Pipes.Greeting

open Transition

variable {N : ℕ} {s t : State N} {j : Fin N} {a : Action N} {acts : List (Action N)} {ok : Bool}
  {f : Inode} {leftover : Bool}

/-! ### The greeting and the places of the processes -/

/-- The server has made its FIFO. -/
def ServerPc.Created : ServerPc → Prop
  | .unlink | .mkfifo | .failed _ => False
  | _ => True

/-- The server has come to its FIFO, once at most. -/
def ServerPc.came : ServerPc → ℕ
  | .opening _ _ | .write _ | .close _ | .farewell | .done => 1
  | _ => 0

/-- The descriptors the server has. -/
def ServerPc.writers : ServerPc → ℕ
  | .opening _ _ | .write _ | .close _ => 1
  | _ => 0

/-- The server has met a client. -/
def ServerPc.Met : ServerPc → Prop
  | .write _ | .close _ | .farewell | .done => True
  | _ => False

/-- The server has written. -/
def ServerPc.Written : ServerPc → Prop
  | .close _ | .farewell | .done => True
  | _ => False

/-- While the server has not opened its FIFO nobody can have removed the name; it waits
for the first client only; and it is never killed. -/
def ServerPc.Place (dir : Option Inode) : ServerPc → Prop
  | .waiting | .open => dir = some .fresh
  | .opening f came => f = .fresh ∧ came = 0
  | .write f | .close f => f = .fresh
  | .killed => False
  | _ => True

theorem ServerPc.writers_le_came (pc : ServerPc) : pc.writers ≤ pc.came := by
  cases pc <;> simp [writers, came]

/-- Without a client to meet, the server has its FIFO open as long as it has come to it. -/
theorem ServerPc.came_eq_writers {pc : ServerPc} (h : ¬ pc.Met) : pc.came = pc.writers := by
  cases pc <;> simp_all [Met, writers, came]

/-- A client that will read what the server writes. -/
def ClientPc.Customer : ClientPc → Prop
  | .opening .fresh came => came = 0
  | .read _ => True
  | _ => False

/-- A client that has read. -/
def ClientPc.HasRead : ClientPc → Prop
  | .print _ | .close _ | .unlink | .done => True
  | _ => False

/-- A client that has printed what it has read. -/
def ClientPc.HasPrinted : ClientPc → Prop
  | .close _ | .unlink | .done => True
  | _ => False

/-- The greeting is in the FIFO, or with one client, and other clients have found the end. -/
inductive Delivery (inFifo : List Char) (buffer : Fin N → Option (List Char)) : Prop
  | pending (hbuffer : inFifo = greeting) (hnone : ∀ j, buffer j = none)
  | delivered (j : Fin N) (hbuffer : inFifo = []) (hgreeting : buffer j = some greeting)
      (hothers : ∀ j' ≠ j, buffer j' = none ∨ buffer j' = some [])

/-- What holds of a client at its place: whoever opens a FIFO is counted there, and only
the one the server has come to lets a reader in. -/
structure ClientSound (fifo : Inode → Fifo Char) (buffer : Option (List Char)) (out : List Char)
    (pc : ClientPc) : Prop where
  opening : ∀ f came, pc = .opening f came →
    came ≤ (fifo f).writersCame ∧ (fifo f).readersCame ≠ 0
  reading : ∀ f, pc = .read f →
    f = .fresh ∧ (fifo f).writersCame ≠ 0 ∧ (fifo f).readersCame ≠ 0
  read : pc.HasRead ↔ buffer ≠ none
  printed : pc.HasPrinted → ∃ bytes, buffer = some bytes ∧ out = received bytes
  unprinted : ¬ pc.HasPrinted → out = []

structure Sound (s : State N) : Prop where
  stale : (s.fifo .stale).writersCame = 0 ∧ (s.fifo .stale).pipe.writers = 0
  place : s.server.Place s.dir
  created : ¬ s.server.Created → s.dir ≠ some .fresh ∧ (s.fifo .fresh).readersCame = 0
  came : (s.fifo .fresh).writersCame = s.server.came
  writers : (s.fifo .fresh).pipe.writers = s.server.writers
  readers : ¬ s.server.Written → (s.fifo .fresh).pipe.readers = (s.fifo .fresh).readersCame
  met : s.server.Met → (s.fifo .fresh).readersCame ≠ 0
  clients : ∀ j, ClientSound s.fifo (s.buffer j) (s.out j) (s.clientAt j)
  unwritten : ¬ s.server.Written → (s.fifo .fresh).pipe.buffer = [] ∧ ∀ j, s.buffer j = none
  written : s.server.Written → Delivery (s.fifo .fresh).pipe.buffer s.buffer
  customer : (s.fifo .fresh).readersCame ≠ 0 →
    (∃ j, (s.clientAt j).Customer) ∨ ∃ j, s.buffer j = some greeting

/-- Somebody comes to the FIFOs, or does something with them. -/
theorem ClientSound.mono {fifo fifo' : Inode → Fifo Char} {buffer : Option (List Char)}
    {out : List Char} {pc : ClientPc} (h : ClientSound fifo buffer out pc)
    (hmore : ∀ f, (fifo f).writersCame ≤ (fifo' f).writersCame ∧
      ((fifo f).readersCame ≠ 0 → (fifo' f).readersCame ≠ 0)) :
    ClientSound fifo' buffer out pc where
  opening f came hpc := by
    obtain ⟨hle, hne⟩ := h.opening f came hpc
    exact ⟨hle.trans (hmore f).1, (hmore f).2 hne⟩
  reading f hpc := by
    obtain ⟨hfresh, hwriter, hreader⟩ := h.reading f hpc
    exact ⟨hfresh, fun hz => hwriter (Nat.le_zero.mp (hz ▸ (hmore f).1)), (hmore f).2 hreader⟩
  read := h.read
  printed := h.printed
  unprinted := h.unprinted

theorem Sound.start : Sound (start N leftover) := by
  have hclient : ClientSound (fun _ => .new Char) none [] .open := by
    constructor <;> simp [ClientPc.HasRead, ClientPc.HasPrinted]
  refine ⟨?_, ?_, ?_, ?_, ?_, ?_, ?_, fun _ => hclient, ?_, ?_, ?_⟩ <;>
    simp [Greeting.start, Fifo.new, Pipe.new, ServerPc.Place, ServerPc.Created, ServerPc.came,
      ServerPc.writers, ServerPc.Met, ServerPc.Written]

namespace Sound

/-! ### The server -/

/-- The server moves on without touching its FIFO. -/
theorem serverMove (h : Sound s) (pc : ServerPc) {dir : Option Inode} {serverOut : List String}
    (hplace : pc.Place dir)
    (hcreated : ¬ pc.Created → dir ≠ some .fresh ∧ (s.fifo .fresh).readersCame = 0)
    (hsame : pc.came = s.server.came ∧ pc.writers = s.server.writers)
    (hwritten : pc.Written ↔ s.server.Written)
    (hmet : pc.Met → (s.fifo .fresh).readersCame ≠ 0) :
    Sound { s with server := pc, dir, serverOut } :=
  { h with
    place := hplace
    created := hcreated
    came := h.came.trans hsame.1.symm
    writers := h.writers.trans hsame.2.symm
    readers := fun hnot => h.readers (mt hwritten.mpr hnot)
    met := hmet
    unwritten := fun hnot => h.unwritten (mt hwritten.mpr hnot)
    written := fun hw => h.written (hwritten.mp hw) }

/-- The server does something with its FIFO. -/
theorem serverPut (h : Sound s) {pc : ServerPc} {x : Fifo Char} (hplace : pc.Place s.dir)
    (hcreated : pc.Created) (hcame : x.writersCame = pc.came)
    (hwriters : x.pipe.writers = pc.writers)
    (hreaders : ¬ pc.Written → x.pipe.readers = x.readersCame)
    (hold : x.readersCame = (s.fifo .fresh).readersCame ∧
      (s.fifo .fresh).writersCame ≤ x.writersCame)
    (hmet : pc.Met → x.readersCame ≠ 0)
    (hunwritten : ¬ pc.Written → x.pipe.buffer = [] ∧ ∀ j, s.buffer j = none)
    (hwritten : pc.Written → Delivery x.pipe.buffer s.buffer) :
    Sound ((s.put .fresh x).serverGoto pc) where
  stale := h.stale
  place := hplace
  created hnot := absurd hcreated hnot
  came := hcame
  writers := hwriters
  readers := hreaders
  met := hmet
  clients j := (h.clients j).mono fun f => by
    cases f with
    | stale => exact ⟨Nat.le_refl _, id⟩
    | fresh => exact ⟨hold.2, hold.1 ▸ id⟩
  unwritten := hunwritten
  written := hwritten
  customer hne := h.customer (hold.1 ▸ hne)

theorem server (h : Sound s) (hstep : server s ok = some t) : Sound t := by
  have hplace := h.place
  unfold Greeting.server at hstep
  cases hpc : s.server with
  | unlink =>
    simp only [hpc, Option.some_inj] at hstep
    subst hstep
    have hcreated := h.created (by simp [hpc, ServerPc.Created])
    refine h.serverMove _ trivial (fun _ => ⟨?_, hcreated.2⟩) ?_ ?_ (fun h => h.elim)
    · split_ifs
      · simp
      · exact hcreated.1
    · exact hpc ▸ ⟨rfl, rfl⟩
    · exact hpc ▸ Iff.rfl
  | mkfifo =>
    simp only [hpc, Option.some_inj] at hstep
    subst hstep
    have hcreated := h.created (by simp [hpc, ServerPc.Created])
    split_ifs
    · refine h.serverMove _ rfl (fun hnot => absurd trivial hnot) ?_ ?_ (fun h => h.elim)
      · exact hpc ▸ ⟨rfl, rfl⟩
      · exact hpc ▸ Iff.rfl
    · refine h.serverMove _ trivial (fun _ => hcreated) ?_ ?_ (fun h => h.elim)
      · exact hpc ▸ ⟨rfl, rfl⟩
      · exact hpc ▸ Iff.rfl
  | waiting =>
    simp only [hpc, Option.some_inj] at hstep
    subst hstep
    rw [hpc] at hplace
    refine h.serverMove _ hplace (fun hnot => absurd trivial hnot) ?_ ?_ (fun h => h.elim)
    · exact hpc ▸ ⟨rfl, rfl⟩
    · exact hpc ▸ Iff.rfl
  | «open» =>
    rw [hpc] at hplace
    have hdir : s.dir = some .fresh := hplace
    simp only [hpc, hdir, Option.some_inj] at hstep
    subst hstep
    have hunwritten : ¬ s.server.Written := by simp [hpc, ServerPc.Written]
    have hreaders := h.readers hunwritten
    have hcame := h.came
    have hwriters := h.writers
    rw [hpc] at hcame hwriters
    have hcame' : (s.fifo .fresh).comeWrite.writersCame = 1 := by
      simp [Fifo.comeWrite, hcame, ServerPc.came]
    have hwriters' : (s.fifo .fresh).comeWrite.pipe.writers = 1 := by
      simp [Fifo.comeWrite, Pipe.openWrite, hwriters, ServerPc.writers]
    by_cases hreader : (s.fifo .fresh).pipe.readers = 0
    · rw [if_neg (not_not.mpr hreader)]
      exact h.serverPut ⟨rfl, hreaders ▸ hreader⟩ trivial hcame' hwriters' (fun _ => hreaders)
        ⟨rfl, Nat.le_succ _⟩ (fun h => h.elim) (fun _ => h.unwritten hunwritten) fun h => h.elim
    · rw [if_pos hreader]
      exact h.serverPut rfl trivial hcame' hwriters' (fun _ => hreaders)
        ⟨rfl, Nat.le_succ _⟩ (fun _ => hreaders ▸ hreader) (fun _ => h.unwritten hunwritten)
        fun h => h.elim
  | opening f came =>
    simp only [hpc] at hstep
    rw [hpc] at hplace
    obtain ⟨rfl, rfl⟩ := hplace
    split_ifs at hstep with hcame
    obtain rfl := Option.some.inj hstep
    refine h.serverMove _ rfl (fun hnot => absurd trivial hnot) ?_ ?_ (fun _ => hcame)
    · exact hpc ▸ ⟨rfl, rfl⟩
    · exact hpc ▸ Iff.rfl
  | write f =>
    rw [hpc] at hplace
    obtain rfl : f = .fresh := hplace
    simp only [hpc, Option.some_inj] at hstep
    subst hstep
    have hunwritten : ¬ s.server.Written := by simp [hpc, ServerPc.Written]
    have hreaders := h.readers hunwritten
    have hmet := h.met (hpc ▸ trivial)
    obtain ⟨hempty, hnone⟩ := h.unwritten hunwritten
    rw [if_neg (hreaders ▸ hmet)]
    refine h.serverPut rfl trivial ?_ ?_ (fun _ => hreaders) ⟨rfl, Nat.le_refl _⟩ (fun _ => hmet)
      (fun hnot => absurd trivial hnot) (fun _ => .pending ?_ hnone)
    · rw [h.came, hpc]
      rfl
    · exact h.writers.trans (by rw [hpc]; rfl)
    · simp [Pipe.write, hempty]
  | close f =>
    rw [hpc] at hplace
    obtain rfl : f = .fresh := hplace
    simp only [hpc, Option.some_inj] at hstep
    subst hstep
    have hmet := h.met (hpc ▸ trivial)
    have hwritten := h.written (hpc ▸ trivial)
    refine h.serverPut trivial trivial ?_ ?_ (fun hnot => absurd trivial hnot) ⟨rfl, Nat.le_refl _⟩
      (fun _ => hmet) (fun hnot => absurd trivial hnot) (fun _ => hwritten)
    · rw [h.came, hpc]
      rfl
    · have hwriters := h.writers
      rw [hpc] at hwriters
      simp [Pipe.closeWrite, hwriters, ServerPc.writers]
  | farewell =>
    simp only [hpc, Option.some_inj] at hstep
    subst hstep
    have hmet := h.met (hpc ▸ trivial)
    refine h.serverMove _ trivial (fun hnot => absurd trivial hnot) ?_ ?_ (fun _ => hmet)
    · exact hpc ▸ ⟨rfl, rfl⟩
    · exact hpc ▸ Iff.rfl
  | done | failed | killed => simp [hpc] at hstep

/-! ### The clients -/

/-- A client moves on without touching its FIFO or its buffer. -/
theorem clientMove (h : Sound s) {pc : ClientPc}
    (hclient : ClientSound s.fifo (s.buffer j) (s.out j) pc)
    (hcustomer : (s.clientAt j).Customer → pc.Customer) : Sound (s.clientGoto j pc) :=
  { h with
    clients := (Function.forall_update_iff s.clientAt fun j pc =>
      ClientSound s.fifo (s.buffer j) (s.out j) pc).mpr ⟨hclient, fun j _ => h.clients j⟩
    customer := by
      intro hne
      refine (h.customer hne).imp_left ?_
      rintro ⟨j', hj'⟩
      refine (Function.exists_update_iff s.clientAt fun _ pc => pc.Customer).mpr ?_
      by_cases hj : j' = j
      · exact Or.inl (hcustomer (hj ▸ hj'))
      · exact Or.inr ⟨j', hj, hj'⟩ }

/-- The other customers stay. -/
theorem exists_customer {clientAt : Fin N → ClientPc} {pc : ClientPc}
    (hnot : ¬ (clientAt j).Customer) (h : ∃ k, (clientAt k).Customer) :
    ∃ k, (Function.update clientAt j pc k).Customer := by
  obtain ⟨k, hk⟩ := h
  have hne : k ≠ j := by
    rintro rfl
    exact hnot hk
  exact ⟨k, by rwa [Function.update_of_ne hne]⟩

theorem clientAt_clientGoto_self (s : State N) (j : Fin N) (pc : ClientPc) :
    (s.clientGoto j pc).clientAt j = pc :=
  Function.update_self ..

/-- A client comes to a FIFO; the first to come to the server's one will be its customer. -/
theorem comeRead (h : Sound s) (hat : s.clientAt j = .open) (hdir : s.dir = some f) :
    Sound ((s.put f (s.fifo f).comeRead).clientGoto j
      (if (s.fifo f).pipe.writers ≠ 0 then .read f else .opening f (s.fifo f).writersCame)) := by
  have hj := h.clients j
  rw [hat] at hj
  have hmore : ∀ g, (s.fifo g).writersCame ≤ ((s.put f (s.fifo f).comeRead).fifo g).writersCame ∧
      ((s.fifo g).readersCame ≠ 0 → ((s.put f (s.fifo f).comeRead).fifo g).readersCame ≠ 0) := by
    intro g
    by_cases hg : g = f
    · subst hg
      rw [fifo_put_self]
      exact ⟨Nat.le_refl _, fun _ => Nat.succ_ne_zero _⟩
    · rw [fifo_put_of_ne s hg]
      exact ⟨Nat.le_refl _, id⟩
  have hclient : ClientSound (s.put f (s.fifo f).comeRead).fifo (s.buffer j) (s.out j)
      (if (s.fifo f).pipe.writers ≠ 0 then .read f else .opening f (s.fifo f).writersCame) := by
    split_ifs with hwriters
    · refine ⟨by simp, ?_, hj.read, hj.printed, hj.unprinted⟩
      rintro g hg
      obtain rfl := ClientPc.read.inj hg
      cases f with
      | stale => exact absurd h.stale.2 hwriters
      | fresh =>
        have hcame : (s.fifo .fresh).writersCame ≠ 0 := by
          have hle := s.server.writers_le_came
          rw [← h.came, ← h.writers] at hle
          omega
        refine ⟨rfl, ?_, ?_⟩
        · rw [fifo_put_self]
          exact hcame
        · rw [fifo_put_self]
          exact Nat.succ_ne_zero _
    · refine ⟨?_, by simp, hj.read, hj.printed, hj.unprinted⟩
      rintro g came hg
      obtain ⟨rfl, rfl⟩ := ClientPc.opening.inj hg
      rw [fifo_put_self]
      exact ⟨Nat.le_refl _, Nat.succ_ne_zero _⟩
  have hclients := (Function.forall_update_iff s.clientAt fun j pc =>
    ClientSound (s.put f (s.fifo f).comeRead).fifo (s.buffer j) (s.out j) pc).mpr
    ⟨hclient, fun j _ => (h.clients j).mono hmore⟩
  have hnot : ¬ (s.clientAt j).Customer := hat ▸ id
  cases f with
  | stale =>
    exact { h with
      clients := hclients
      customer := fun hne => (h.customer hne).imp_left (exists_customer hnot) }
  | fresh =>
    refine { h with
      created := fun hnot => absurd hdir (h.created hnot).1
      readers := fun hnot => congrArg Nat.succ (h.readers hnot)
      met := fun _ => Nat.succ_ne_zero _
      clients := hclients
      customer := fun _ => ?_ }
    by_cases hfirst : (s.fifo .fresh).readersCame = 0
    · refine Or.inl ⟨j, ?_⟩
      rw [clientAt_clientGoto_self]
      split_ifs with hwriters
      · trivial
      · -- nobody has come before, so the server has not left
        have hcame := ServerPc.came_eq_writers (mt h.met (not_not.mpr hfirst))
        rw [← h.came, ← h.writers] at hcame
        exact hcame.trans (not_not.mp hwriters)
    · exact (h.customer hfirst).imp_left (exists_customer hnot)

/-- Somebody has read something, so the server has written. -/
theorem written_of_hasRead (h : Sound s) (hread : (s.clientAt j).HasRead) : s.server.Written := by
  by_contra hnot
  exact (h.clients j).read.mp hread ((h.unwritten hnot).2 j)

/-- A client closes its FIFO when it has read. -/
theorem closeRead (h : Sound s) (hwritten : s.server.Written) :
    Sound (s.setPipe f (s.fifo f).pipe.closeRead) := by
  have hsame : ∀ g, ((s.setPipe f (s.fifo f).pipe.closeRead).fifo g).writersCame =
      (s.fifo g).writersCame ∧
      ((s.setPipe f (s.fifo f).pipe.closeRead).fifo g).readersCame = (s.fifo g).readersCame ∧
      ((s.setPipe f (s.fifo f).pipe.closeRead).fifo g).pipe.writers = (s.fifo g).pipe.writers ∧
      ((s.setPipe f (s.fifo f).pipe.closeRead).fifo g).pipe.buffer = (s.fifo g).pipe.buffer := by
    intro g
    by_cases hg : g = f
    · subst hg
      rw [State.setPipe, fifo_put_self]
      exact ⟨rfl, rfl, rfl, rfl⟩
    · rw [State.setPipe, fifo_put_of_ne s hg]
      exact ⟨rfl, rfl, rfl, rfl⟩
  obtain ⟨hcame, hreaders, hwriters, hbuffer⟩ := hsame .fresh
  exact
    { stale := by
        rw [(hsame .stale).1, (hsame .stale).2.2.1]
        exact h.stale
      place := h.place
      created := by
        rw [hreaders]
        exact h.created
      came := hcame.trans h.came
      writers := hwriters.trans h.writers
      readers := fun hnot => absurd hwritten hnot
      met := by
        rw [hreaders]
        exact h.met
      clients := fun j => (h.clients j).mono fun g =>
        ⟨(hsame g).1.ge, (hsame g).2.1 ▸ id⟩
      unwritten := fun hnot => absurd hwritten hnot
      written := by
        rw [hbuffer]
        exact h.written
      customer := by
        rw [hreaders]
        exact h.customer }

/-- A client that has read removes the name. -/
theorem unlink (h : Sound s) (hwritten : s.server.Written) : Sound { s with dir := none } := by
  have hplace := h.place
  refine h.serverMove s.server ?_ (fun hnot => ?_) ⟨rfl, rfl⟩ Iff.rfl h.met
  · cases hpc : s.server <;> simp_all [ServerPc.Place, ServerPc.Written]
  · exact ⟨by simp, (h.created hnot).2⟩

/-- What a client finds: all of the greeting, or the end when another has taken it. -/
theorem read_cases (h : Sound s) {bytes : List Char} {p : Pipe Char}
    (hat : s.clientAt j = .read .fresh)
    (hread : (s.fifo .fresh).pipe.read bufferSize = some (bytes, p)) :
    s.server.Written ∧ p.buffer = [] ∧ p.writers = (s.fifo .fresh).pipe.writers ∧
      Delivery [] (Function.update s.buffer j (some bytes)) := by
  have hmine : s.buffer j = none := by
    by_contra hne
    have hread := (h.clients j).read.mpr hne
    rw [hat] at hread
    exact hread
  obtain ⟨-, hcame, -⟩ := (h.clients j).reading _ hat
  rcases Pipe.read_cases hread with ⟨hempty, hwriters, rfl, rfl⟩ | ⟨hbuffer, rfl, rfl⟩
  · -- the server has come and gone
    have hwritten : s.server.Written := by
      rw [h.came] at hcame
      rw [h.writers] at hwriters
      cases hpc : s.server <;> simp_all [ServerPc.came, ServerPc.writers, ServerPc.Written]
    rcases h.written hwritten with ⟨hpending, -⟩ | ⟨j', -, hgreeting, hothers⟩
    · rw [hempty] at hpending
      cases hpending
    · have hne : j' ≠ j := by
        rintro rfl
        rw [hmine] at hgreeting
        cases hgreeting
      refine ⟨hwritten, hempty, rfl, .delivered j' rfl ?_ fun k hk => ?_⟩
      · rwa [Function.update_of_ne hne]
      · by_cases hkj : k = j
        · subst hkj
          exact Or.inr (Function.update_self ..)
        · rw [Function.update_of_ne hkj]
          exact hothers k hk
  · have hwritten : s.server.Written := by
      by_contra hnot
      exact hbuffer (h.unwritten hnot).1
    rcases h.written hwritten with ⟨hpending, hnone⟩ | ⟨j', hempty, -⟩
    · have hall : (s.fifo .fresh).pipe.buffer.take bufferSize = greeting := by
        rw [hpending]
        rfl
      rw [hall]
      refine ⟨hwritten, ?_, rfl, .delivered j rfl (Function.update_self ..) fun k hk => ?_⟩
      · simp only [Pipe.take, hpending]
        rfl
      · rw [Function.update_of_ne hk]
        exact Or.inl (hnone k)
    · exact absurd hempty hbuffer

theorem read (h : Sound s) {bytes : List Char} {p : Pipe Char} (hat : s.clientAt j = .read f)
    (hread : (s.fifo f).pipe.read bufferSize = some (bytes, p)) :
    Sound ({ s.setPipe f p with buffer := Function.update s.buffer j (some bytes) }.clientGoto j
      (.print f)) := by
  have hj := h.clients j
  obtain ⟨rfl, hcame, hreaders⟩ := hj.reading f hat
  obtain ⟨hwritten, hempty, hwriters, hdelivery⟩ := h.read_cases hat hread
  rw [hat] at hj
  have hout : s.out j = [] := hj.unprinted id
  refine { h with
    writers := hwriters.trans h.writers
    readers := fun hnot => absurd hwritten hnot
    clients := fun k => ?_
    unwritten := fun hnot => absurd hwritten hnot
    written := fun _ => ?_
    customer := fun _ => Or.inr ?_ }
  · have hmore : ∀ g, (s.fifo g).writersCame ≤ ((s.setPipe .fresh p).fifo g).writersCame ∧
        ((s.fifo g).readersCame ≠ 0 → ((s.setPipe .fresh p).fifo g).readersCame ≠ 0) := by
      intro g
      cases g with
      | stale => exact ⟨Nat.le_refl _, id⟩
      | fresh => exact ⟨Nat.le_refl _, id⟩
    by_cases hk : k = j
    · subst hk
      simp only [State.clientGoto, Function.update_self]
      exact ⟨by simp, by simp, ⟨fun _ => by simp, fun _ => trivial⟩, fun h => h.elim, fun _ => hout⟩
    · simp only [State.clientGoto, Function.update_of_ne hk]
      exact (h.clients k).mono hmore
  · change Delivery p.buffer _
    rw [hempty]
    exact hdelivery
  · cases hdelivery with
    | pending hbuffer hnone => cases hbuffer
    | delivered j' hbuffer hgreeting hothers => exact ⟨j', hgreeting⟩

theorem print (h : Sound s) {bytes : List Char} (hat : s.clientAt j = .print f)
    (hbuffer : s.buffer j = some bytes) :
    Sound ({ s with out := Function.update s.out j (received bytes) }.clientGoto j (.close f)) := by
  have hj := h.clients j
  rw [hat] at hj
  refine { h with
    clients := fun k => ?_
    customer := fun hne => ?_ }
  · by_cases hk : k = j
    · subst hk
      simp only [State.clientGoto, Function.update_self]
      exact ⟨by simp, by simp, hj.read, fun _ => ⟨bytes, hbuffer, rfl⟩, fun h => absurd trivial h⟩
    · simp only [State.clientGoto, Function.update_of_ne hk]
      exact h.clients k
  · exact (h.customer hne).imp_left (exists_customer (hat ▸ id))

theorem client (h : Sound s) (hstep : client s j = some t) : Sound t := by
  have hj := h.clients j
  unfold Greeting.client at hstep
  cases hpc : s.clientAt j with
  | «open» =>
    simp only [hpc] at hstep
    cases hdir : s.dir with
    | none =>
      simp only [hdir, Option.some_inj] at hstep
      subst hstep
      rw [hpc] at hj
      refine h.clientMove ⟨by simp, by simp, hj.read, hj.printed, hj.unprinted⟩ ?_
      rw [hpc]
      exact fun h => h.elim
    | some f =>
      simp only [hdir, Option.some_inj] at hstep
      exact hstep ▸ h.comeRead hpc hdir
  | opening f came =>
    simp only [hpc] at hstep
    split_ifs at hstep with hcame
    obtain rfl := Option.some.inj hstep
    rw [hpc] at hj
    obtain ⟨hle, hne⟩ := hj.opening f came rfl
    cases f with
    | stale =>
      have hstale := h.stale.1
      omega
    | fresh =>
      refine h.clientMove ⟨by simp, ?_, hj.read, hj.printed, hj.unprinted⟩ fun _ => trivial
      rintro f hf
      obtain rfl := ClientPc.read.inj hf
      exact ⟨rfl, by omega, hne⟩
  | read f =>
    simp only [hpc] at hstep
    obtain ⟨⟨bytes, p⟩, hread, rfl⟩ := Option.map_eq_some_iff.mp hstep
    exact h.read hpc hread
  | print f =>
    simp only [hpc] at hstep
    obtain ⟨bytes, hbuffer, rfl⟩ := Option.map_eq_some_iff.mp hstep
    exact h.print hpc hbuffer
  | close f =>
    simp only [hpc, Option.some_inj] at hstep
    subst hstep
    have hwritten := h.written_of_hasRead (j := j) (hpc ▸ trivial)
    have hj' := (h.closeRead (f := f) hwritten).clients j
    have hpc' : (s.setPipe f (s.fifo f).pipe.closeRead).clientAt j = .close f := hpc
    rw [hpc'] at hj'
    refine (h.closeRead hwritten).clientMove ?_ (hpc' ▸ fun h => h.elim)
    exact ⟨by simp, by simp, hj'.read, hj'.printed, hj'.unprinted⟩
  | unlink =>
    simp only [hpc, Option.some_inj] at hstep
    subst hstep
    have hwritten := h.written_of_hasRead (j := j) (hpc ▸ trivial)
    rw [hpc] at hj
    refine (h.unlink hwritten).clientMove ?_ (hpc ▸ fun h => h.elim)
    exact ⟨by simp, by simp, hj.read, hj.printed, hj.unprinted⟩
  | done | failed => simp [hpc] at hstep

theorem preserved : Preserved step (Sound (N := N)) := by
  intro s a t h hstep
  cases a with
  | server ok => exact h.server hstep
  | client j => exact h.client hstep

/-! ### What the clients show -/

theorem hasRead_of_hasPrinted {pc : ClientPc} (h : pc.HasPrinted) : pc.HasRead := by
  cases pc <;> simp_all [ClientPc.HasPrinted, ClientPc.HasRead]

/-- Only a client that has found the greeting or the end has printed anything. -/
theorem out_cases (h : Sound s) (j : Fin N) :
    s.out j = [] ∨ (s.buffer j = some [] ∧ s.out j = received []) ∨
      (s.buffer j = some greeting ∧ s.out j = received greeting) := by
  by_cases hprinted : (s.clientAt j).HasPrinted
  · obtain ⟨bytes, hbuffer, hout⟩ := (h.clients j).printed hprinted
    have hwritten := h.written_of_hasRead (hasRead_of_hasPrinted hprinted)
    rcases h.written hwritten with ⟨-, hnone⟩ | ⟨j', -, hgreeting, hothers⟩
    · rw [hnone j] at hbuffer
      cases hbuffer
    · by_cases hj : j = j'
      · subst hj
        obtain rfl := Option.some.inj (hbuffer.symm.trans hgreeting)
        exact Or.inr (Or.inr ⟨hbuffer, hout⟩)
      · rcases hothers j hj with hnone | hend
        · rw [hnone] at hbuffer
          cases hbuffer
        · obtain rfl := Option.some.inj (hbuffer.symm.trans hend)
          exact Or.inr (Or.inl ⟨hbuffer, hout⟩)
  · exact Or.inl ((h.clients j).unprinted hprinted)

/-- The greeting has gone to one client only. -/
theorem greeting_unique (h : Sound s) {k : Fin N} (hj : s.buffer j = some greeting)
    (hk : s.buffer k = some greeting) : j = k := by
  have hread : (s.clientAt j).HasRead := (h.clients j).read.mpr (by simp [hj])
  rcases h.written (h.written_of_hasRead hread) with ⟨-, hnone⟩ | ⟨j', -, hgreeting, hothers⟩
  · rw [hnone j] at hj
    cases hj
  · have hmine : ∀ k, s.buffer k = some greeting → k = j' := by
      intro k hk
      by_contra hne
      rcases hothers k hne with hnone | hend
      · rw [hnone] at hk
        cases hk
      · rw [hend] at hk
        cases hk
    rw [hmine j hj, hmine k hk]

end Sound

/-! ### The end of the processes -/

def ServerPc.left : ServerPc → ℕ
  | .unlink => 8
  | .mkfifo => 7
  | .waiting => 6
  | .open => 5
  | .opening _ _ => 4
  | .write _ => 3
  | .close _ => 2
  | .farewell => 1
  | .done | .failed _ | .killed => 0

def ClientPc.left : ClientPc → ℕ
  | .open => 6
  | .opening _ _ => 5
  | .read _ => 4
  | .print _ => 3
  | .close _ => 2
  | .unlink => 1
  | .done | .failed _ => 0

def State.left (s : State N) : ℕ := s.server.left + ∑ j, (s.clientAt j).left

theorem server_left (hstep : server s ok = some t) :
    t.server.left < s.server.left ∧ t.clientAt = s.clientAt := by
  unfold server at hstep
  cases hpc : s.server with
  | mkfifo =>
    simp only [hpc, Option.some_inj] at hstep
    subst hstep
    split_ifs <;> exact ⟨by simp [State.serverGoto, ServerPc.left], rfl⟩
  | «open» =>
    simp only [hpc] at hstep
    split at hstep
    · obtain rfl := Option.some.inj hstep
      exact ⟨by simp [State.serverGoto, ServerPc.left], rfl⟩
    · obtain rfl := Option.some.inj hstep
      refine ⟨?_, rfl⟩
      simp only [State.serverGoto]
      split_ifs <;> simp [ServerPc.left]
  | opening f came =>
    simp only [hpc] at hstep
    split_ifs at hstep
    obtain rfl := Option.some.inj hstep
    exact ⟨by simp [State.serverGoto, ServerPc.left], rfl⟩
  | write f =>
    simp only [hpc, Option.some_inj] at hstep
    subst hstep
    split_ifs <;> exact ⟨by simp [State.serverGoto, ServerPc.left], rfl⟩
  | done | failed | killed => simp [hpc] at hstep
  | _ =>
    simp only [hpc, Option.some_inj] at hstep
    subst hstep
    exact ⟨by simp [State.serverGoto, ServerPc.left], rfl⟩

theorem client_left (hstep : client s j = some t) :
    t.server = s.server ∧
      ∃ pc : ClientPc, t.clientAt = Function.update s.clientAt j pc ∧
        pc.left < (s.clientAt j).left := by
  unfold client at hstep
  cases hpc : s.clientAt j with
  | «open» =>
    simp only [hpc] at hstep
    split at hstep
    · obtain rfl := Option.some.inj hstep
      exact ⟨rfl, _, rfl, by simp [ClientPc.left]⟩
    · obtain rfl := Option.some.inj hstep
      refine ⟨rfl, _, rfl, ?_⟩
      split_ifs <;> simp [ClientPc.left]
  | opening f came =>
    simp only [hpc] at hstep
    split_ifs at hstep
    obtain rfl := Option.some.inj hstep
    exact ⟨rfl, _, rfl, by simp [ClientPc.left]⟩
  | read f | print f =>
    simp only [hpc] at hstep
    obtain ⟨-, -, rfl⟩ := Option.map_eq_some_iff.mp hstep
    exact ⟨rfl, _, rfl, by simp [ClientPc.left]⟩
  | done | failed => simp [hpc] at hstep
  | _ =>
    simp only [hpc, Option.some_inj] at hstep
    subst hstep
    exact ⟨rfl, _, rfl, by simp [ClientPc.left]⟩

theorem left_lt (hstep : step s a = some t) : t.left < s.left := by
  cases a with
  | server ok =>
    obtain ⟨hless, hclients⟩ := server_left hstep
    rw [State.left, State.left, hclients]
    omega
  | client j =>
    obtain ⟨hserver, pc, hclients, hless⟩ := client_left hstep
    rw [State.left, State.left, hserver, hclients]
    refine Nat.add_lt_add_left (Finset.sum_lt_sum (fun k _ => ?_) ⟨j, Finset.mem_univ j, ?_⟩) _
    · by_cases hk : k = j
      · subst hk
        rw [Function.update_self]
        exact hless.le
      · rw [Function.update_of_ne hk]
    · rwa [Function.update_self]

/-- The server waits in `open` only. -/
theorem server_blocked (h : Sound s) (hstep : server s true = none) :
    s.server = .done ∨ (∃ error, s.server = .failed error) ∨
      s.server = .opening .fresh 0 ∧ (s.fifo .fresh).readersCame = 0 := by
  have hplace := h.place
  unfold server at hstep
  cases hpc : s.server with
  | done => exact Or.inl rfl
  | failed error => exact Or.inr (Or.inl ⟨error, rfl⟩)
  | opening f came =>
    rw [hpc] at hplace
    obtain ⟨rfl, rfl⟩ := hplace
    simp only [hpc] at hstep
    split_ifs at hstep with hcame
    exact Or.inr (Or.inr ⟨rfl, hcame⟩)
  | killed =>
    rw [hpc] at hplace
    exact hplace.elim
  | «open» =>
    simp only [hpc] at hstep
    split at hstep <;> cases hstep
  | _ => simp [hpc] at hstep

/-- A client waits in `open`, or in `read` while the server has its end. -/
theorem client_blocked (h : Sound s) (hstep : client s j = none) :
    s.clientAt j = .done ∨ (∃ error, s.clientAt j = .failed error) ∨
      (∃ f came, s.clientAt j = .opening f came ∧ (s.fifo f).writersCame = came) ∨
      s.clientAt j = .read .fresh ∧ (s.fifo .fresh).pipe.writers ≠ 0 := by
  have hj := h.clients j
  unfold client at hstep
  cases hpc : s.clientAt j with
  | done => exact Or.inl rfl
  | failed error => exact Or.inr (Or.inl ⟨error, rfl⟩)
  | opening f came =>
    simp only [hpc] at hstep
    split_ifs at hstep with hcame
    exact Or.inr (Or.inr (Or.inl ⟨f, came, rfl, hcame⟩))
  | read f =>
    obtain ⟨rfl, -⟩ := hj.reading f hpc
    simp only [hpc, Option.map_eq_none_iff] at hstep
    exact Or.inr (Or.inr (Or.inr ⟨rfl, (Pipe.read_eq_none_iff.mp hstep).2⟩))
  | print f =>
    simp only [hpc, Option.map_eq_none_iff] at hstep
    rw [hpc] at hj
    exact absurd hstep (hj.read.mp trivial)
  | «open» =>
    simp only [hpc] at hstep
    split at hstep <;> cases hstep
  | _ => simp [hpc] at hstep

/-- How it ends: with the server gone, one client has shown the greeting and the others
nothing, or an empty line; or nobody has come to the server, and no client shows anything. -/
inductive Ended (s : State N) : Prop
  | greeted (j : Fin N) (hserver : s.server = .done) (hclient : s.clientAt j = .done)
      (hout : s.out j = received greeting)
      (hothers : ∀ k ≠ j, s.out k = [] ∨ s.out k = received [])
  | alone (hserver : s.server = .opening .fresh 0 ∨ ∃ error, s.server = .failed error)
      (hclients : ∀ j, s.out j = [] ∧ ((∃ error, s.clientAt j = .failed error) ∨
        ∃ came, s.clientAt j = .opening .stale came))

/-- As long as nobody has come to the server's FIFO, nobody has got anything. -/
theorem alone_of_readersCame (h : Sound s) (hnobody : (s.fifo .fresh).readersCame = 0)
    (hunwritten : ¬ s.server.Written) (hstep : client s j = none) :
    s.out j = [] ∧ ((∃ error, s.clientAt j = .failed error) ∨
      ∃ came, s.clientAt j = .opening .stale came) := by
  have hj := h.clients j
  have hunread : ¬ (s.clientAt j).HasRead := mt h.written_of_hasRead hunwritten
  refine ⟨hj.unprinted (mt Sound.hasRead_of_hasPrinted hunread), ?_⟩
  rcases client_blocked h hstep with hdone | hfailed | ⟨f, came, hpc, -⟩ | ⟨hread, -⟩
  · exact absurd (hdone ▸ trivial) hunread
  · exact Or.inl hfailed
  · cases f with
    | stale => exact Or.inr ⟨came, hpc⟩
    | fresh => exact absurd hnobody (hj.opening _ _ hpc).2
  · exact absurd hnobody (hj.reading _ hread).2.2

theorem ended_of_stuck (h : Sound s) (hstuck : Stuck step s) : Ended s := by
  have hclient : ∀ j, client s j = none := fun j => hstuck (.client j)
  rcases server_blocked h (hstuck (.server true)) with hdone | ⟨error, hfailed⟩ | ⟨hopening, hcame⟩
  · have hcame := h.came
    have hwriters := h.writers
    have hmet := h.met (hdone ▸ trivial)
    rw [hdone] at hcame hwriters
    -- a client that came in time could go on
    have hgreeting : ∃ j, s.buffer j = some greeting := by
      refine (h.customer hmet).resolve_left ?_
      rintro ⟨j, hj⟩
      rcases client_blocked h (hclient j) with hpc | ⟨_, hpc⟩ | ⟨f, came, hpc, hfew⟩ | ⟨-, hopen⟩
      · exact (hpc ▸ hj : ClientPc.Customer .done).elim
      · exact (hpc ▸ hj : ClientPc.Customer (.failed _)).elim
      · rw [hpc] at hj
        cases f with
        | stale => exact hj.elim
        | fresh =>
          obtain rfl : came = 0 := hj
          rw [hcame] at hfew
          cases hfew
      · exact hopen hwriters
    obtain ⟨j, hj⟩ := hgreeting
    have hread : (s.clientAt j).HasRead := (h.clients j).read.mpr (by simp [hj])
    have hpc : s.clientAt j = .done := by
      rcases client_blocked h (hclient j) with hpc | ⟨_, hpc⟩ | ⟨_, _, hpc, -⟩ | ⟨hpc, -⟩
      · exact hpc
      all_goals
        rw [hpc] at hread
        exact hread.elim
    have hprinted : (s.clientAt j).HasPrinted := hpc ▸ trivial
    obtain ⟨bytes, hbytes, hout⟩ := (h.clients j).printed hprinted
    obtain rfl := Option.some.inj (hbytes.symm.trans hj)
    refine .greeted j hdone hpc hout fun k hk => ?_
    rcases h.out_cases k with hnone | ⟨-, hend⟩ | ⟨hk', -⟩
    · exact Or.inl hnone
    · exact Or.inr hend
    · exact absurd (h.greeting_unique hk' hj) hk
  · have hnobody := (h.created (by simp [hfailed, ServerPc.Created])).2
    have hunwritten : ¬ s.server.Written := by simp [hfailed, ServerPc.Written]
    exact .alone (Or.inr ⟨error, hfailed⟩) fun j =>
      alone_of_readersCame h hnobody hunwritten (hclient j)
  · have hunwritten : ¬ s.server.Written := by simp [hopening, ServerPc.Written]
    exact .alone (Or.inl hopening) fun j => alone_of_readersCame h hcame hunwritten (hclient j)

/-- **One greeting for one client.** Whatever is under the name at the start, however many
clients are started and in whatever order all processes move: a client shows nothing, an
empty line or the greeting, and no two show the greeting; and the processes come to an end
or wait for ever as `Ended` says. -/
theorem one_greeting (hrun : run step (start N leftover) acts = some s) :
    (∀ j, s.out j = [] ∨ s.out j = received [] ∨ s.out j = received greeting) ∧
      (∀ j k, s.out j = received greeting → s.out k = received greeting → j = k) ∧
      acts.length ≤ 8 + 6 * N ∧ (Stuck step s → Ended s) := by
  have hsound := Sound.preserved.run .start hrun
  have hgreeting : ∀ j, s.out j = received greeting → s.buffer j = some greeting := by
    intro j hj
    rcases hsound.out_cases j with hnone | ⟨-, hend⟩ | ⟨hbuffer, -⟩
    · rw [hnone] at hj
      cases hj
    · rw [hend] at hj
      cases hj
    · exact hbuffer
  refine ⟨fun j => ?_, fun j k hj hk => ?_, ?_, ended_of_stuck hsound⟩
  · exact (hsound.out_cases j).imp_right (Or.imp And.right And.right)
  · exact hsound.greeting_unique (hgreeting j hj) (hgreeting k hk)
  · have htrue : Preserved step (fun _ : State N => True) := fun _ _ _ _ _ => trivial
    have hlength := htrue.size_add_length_le (fun _ _ _ _ => left_lt) trivial hrun
    have hstart : (start N leftover).left = 8 + 6 * N := by
      simp [State.left, start, ServerPc.left, ClientPc.left, mul_comm]
    omega

/-- A FIFO was left by an earlier run. The first client comes too early and opens that one;
the two others come before the server opens its own, and the last of them reads first. -/
def threeClients : List (Action 3) :=
  [.client 0] ++ List.replicate 3 (.server true) ++ [.client 1, .client 2] ++
    List.replicate 4 (.server true) ++ List.replicate 2 (.client 2) ++
    List.replicate 5 (.client 1) ++ List.replicate 3 (.client 2)

theorem one_greeting_three :
    ∃ s, run step (start 3 true) threeClients = some s ∧ s.server = .done ∧
      s.out 0 = [] ∧ s.out 1 = received [] ∧ s.out 2 = received greeting ∧
      (∀ j k, s.out j = received greeting → s.out k = received greeting → j = k) ∧ Ended s := by
  have hend : (run step (start 3 true) threeClients).map (fun s => (s.server, s.out 0, s.out 1,
      s.out 2, s.clientAt 0, s.clientAt 1, s.clientAt 2, (s.fifo .stale).writersCame)) =
      some (.done, [], received [], received greeting, .opening .stale 0, .done, .done, 0) := by
    rfl
  obtain ⟨s, hrun, hs⟩ := Option.map_eq_some_iff.mp hend
  obtain ⟨hserver, hout₀, hout₁, hout₂, hpc₀, hpc₁, hpc₂, hstale⟩ := by
    simpa only [Prod.mk.injEq] using hs
  obtain ⟨-, hunique, -, hended⟩ := one_greeting hrun
  refine ⟨s, hrun, hserver, hout₀, hout₁, hout₂, hunique, hended ?_⟩
  rintro (ok | j)
  · simp [step, server, hserver]
  · match j with
    | 0 => simp [step, client, hpc₀, hstale]
    | 1 => simp [step, client, hpc₁]
    | 2 => simp [step, client, hpc₂]

end UnixLessons.Pipes.Greeting

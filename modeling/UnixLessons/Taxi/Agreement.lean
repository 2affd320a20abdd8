import UnixLessons.Taxi.Holders
import UnixLessons.Taxi.Messages

/-!
# The dispatcher and its drivers agree

The dispatcher talks to one driver at a time, with one `write` and one `read`, and
a driver answers every command with one message. So at any moment at most one
message is in the two pipes of a driver that is alive: `Phase` lists the stages of
an exchange, and every move of either party leads from one to the next.

## Main results

* `step_agreement`: every move keeps the stages of all exchanges
* `exchange_agrees`: what `send_command` returns is the answer of that driver to
  that command
-/

namespace UnixLessons.Taxi

open Text Descriptors Transition World

variable {s t : World} {p p' q : Process} {k l : ℕ} {e : Exchange} {h : Handled} {r : Request}

/-- A finished call and the entry in the history of the driver it was meant for. -/
structure Agreed (e : Exchange) (h : Handled) : Prop where
  received : h.received = e.request.text
  timer : ∀ timer, e.request = .task timer → h.timer = some timer
  code : e.code = 0
  response : e.response = h.reply
  taskSent : (∃ timer, e.line = .taskSent e.pid timer) ↔
    h.busyBefore = false ∧ h.busyAfter = true

/-- The driver has no command and no answer in its memory. -/
def Quiet (m : DriverState) : Prop :=
  (∀ buffer, m.pc ≠ .handle buffer) ∧ ∀ text, m.pc ≠ .reply text

theorem DriverState.enterSelect_quiet (d : DriverState) (now : Int64) :
    Quiet (d.enterSelect now) ∧ (d.enterSelect now).handled = d.handled := by
  unfold enterSelect
  split
  · dsimp only
    split <;> exact ⟨⟨by simp, by simp⟩, rfl⟩
  · exact ⟨⟨by simp, by simp⟩, rfl⟩

/-- The stages of an exchange: nothing was asked, or a request was and the command
is in its pipe, the driver has read it, has handled it, or the answer is in its
pipe. The finished calls `done` are those in the history before. -/
inductive Phase (done : List Exchange) (m : DriverState) (command reply : List Char) :
    Option Request → Prop
  | idle (quiet : Quiet m) (command_eq : command = []) (reply_eq : reply = [])
      (agreed : List.Forall₂ Agreed done m.handled) : Phase done m command reply none
  | sent (r : Request) (quiet : Quiet m) (command_eq : command = message r.text)
      (reply_eq : reply = []) (agreed : List.Forall₂ Agreed done m.handled) :
      Phase done m command reply (some r)
  | handling (r : Request) (pc : m.pc = .handle r.text) (command_eq : command = [])
      (reply_eq : reply = []) (agreed : List.Forall₂ Agreed done m.handled) :
      Phase done m command reply (some r)
  | replying (r : Request) (h : Handled) (hs : List Handled) (handled : m.handled = hs ++ [h])
      (answers : Answers r h) (pc : m.pc = .reply h.reply) (command_eq : command = [])
      (reply_eq : reply = []) (agreed : List.Forall₂ Agreed done hs) :
      Phase done m command reply (some r)
  | answered (r : Request) (h : Handled) (hs : List Handled) (handled : m.handled = hs ++ [h])
      (answers : Answers r h) (quiet : Quiet m) (command_eq : command = [])
      (reply_eq : reply = message h.reply) (agreed : List.Forall₂ Agreed done hs) :
      Phase done m command reply (some r)

/-- The answer to a call, returned as it is, agrees with the entry of the driver. -/
theorem Answers.agreed {c : Call} (h₀ : Answers c.request h) (addressee : Option ℕ) :
    Agreed ⟨c.pid, c.request, addressee, 0, h.reply, report c 0 h.reply⟩ h := by
  refine ⟨h₀.received, h₀.timer, rfl, rfl, ?_⟩
  obtain ⟨pid, request, next⟩ := c
  cases request with
  | status =>
    simp [report, h₀.status rfl]
  | task timer =>
    obtain ⟨hafter, hbusy⟩ := h₀.task timer rfl
    rw [hafter]
    by_cases hsays : SaysBusy h.reply
    · simp [report, hbusy.mp hsays, hsays]
    · have hfree : h.busyBefore = false := by simpa using mt hbusy.mpr hsays
      simp [report, hfree, hsays]

namespace Phase

variable {done : List Exchange} {m m' : DriverState} {command reply : List Char}
  {a : Option Request}

/-- Between two messages a driver may do what it likes. -/
theorem of_quiet (h : Phase done m command reply a) (hm : Quiet m) (hm' : Quiet m')
    (hhandled : m'.handled = m.handled) : Phase done m' command reply a := by
  cases h with
  | idle quiet hcommand hreply agreed => exact .idle hm' hcommand hreply (hhandled ▸ agreed)
  | sent r quiet hcommand hreply agreed => exact .sent r hm' hcommand hreply (hhandled ▸ agreed)
  | handling r pc hcommand hreply agreed => exact absurd pc (hm.1 _)
  | replying r h hs handled answers pc hcommand hreply agreed => exact absurd pc (hm.2 _)
  | answered r h hs handled answers quiet hcommand hreply agreed =>
    exact .answered r h hs (hhandled.trans handled) answers hm' hcommand hreply agreed

/-- A command in the pipe of a driver that waits is the one it was asked. -/
theorem sent_of_quiet (h : Phase done m command reply a) (hm : Quiet m) (hne : command ≠ []) :
    ∃ r, a = some r ∧ command = message r.text ∧ reply = [] ∧
      List.Forall₂ Agreed done m.handled := by
  cases h with
  | sent r quiet hcommand hreply agreed => exact ⟨r, rfl, hcommand, hreply, agreed⟩
  | handling r pc hcommand hreply agreed => exact absurd pc (hm.1 _)
  | _ => exact absurd ‹command = []› hne

/-- An answer in the pipe is the one to what was asked. -/
theorem answered_of_ne_nil (h : Phase done m command reply a) (hne : reply ≠ []) :
    ∃ r h hs, a = some r ∧ m.handled = hs ++ [h] ∧ Answers r h ∧ Quiet m ∧ command = [] ∧
      reply = message h.reply ∧ List.Forall₂ Agreed done hs := by
  cases h with
  | answered r h hs handled answers quiet hcommand hreply agreed =>
    exact ⟨r, h, hs, rfl, handled, answers, quiet, hcommand, hreply, agreed⟩
  | _ => exact absurd ‹reply = []› hne

theorem handling_of_pc {buffer : CString} (h : Phase done m command reply a)
    (hpc : m.pc = .handle buffer) :
    ∃ r, a = some r ∧ buffer = r.text ∧ command = [] ∧ reply = [] ∧
      List.Forall₂ Agreed done m.handled := by
  cases h with
  | idle quiet => exact absurd hpc (quiet.1 _)
  | sent r quiet => exact absurd hpc (quiet.1 _)
  | handling r pc hcommand hreply agreed =>
    cases hpc.symm.trans pc
    exact ⟨r, rfl, rfl, hcommand, hreply, agreed⟩
  | replying r h hs handled answers pc => cases hpc.symm.trans pc
  | answered r h hs handled answers quiet => exact absurd hpc (quiet.1 _)

theorem replying_of_pc {text : CString} (h : Phase done m command reply a)
    (hpc : m.pc = .reply text) :
    ∃ r h hs, a = some r ∧ text = h.reply ∧ m.handled = hs ++ [h] ∧ Answers r h ∧
      command = [] ∧ reply = [] ∧ List.Forall₂ Agreed done hs := by
  cases h with
  | idle quiet => exact absurd hpc (quiet.2 _)
  | sent r quiet => exact absurd hpc (quiet.2 _)
  | handling r pc => cases hpc.symm.trans pc
  | replying r h hs handled answers pc hcommand hreply agreed =>
    cases hpc.symm.trans pc
    exact ⟨r, h, hs, rfl, rfl, handled, answers, hcommand, hreply, agreed⟩
  | answered r h hs handled answers quiet => exact absurd hpc (quiet.2 _)

end Phase

namespace World

/-- What the dispatcher waits to hear from a driver. -/
def asked (s : World) (p : Process) : Option Request :=
  match s.pc with
  | .receiving c _ => if p.life ≠ .reaped ∧ c.pid = p.pid then some c.request else none
  | _ => none

/-- The finished calls that were meant for the driver `k`. -/
def exchangesWith (s : World) (k : ℕ) : List Exchange :=
  s.exchanges.filter (·.addressee == some k)

theorem asked_of_not_receiving (hpc : ∀ c fd, s.pc ≠ .receiving c fd) : s.asked p = none := by
  unfold asked
  split
  · exact absurd ‹_› (hpc _ _)
  · rfl

theorem asked_congr (hpc : t.pc = s.pc) (hpid : p'.pid = p.pid)
    (hlife : p'.life = .reaped ↔ p.life = .reaped) : t.asked p' = s.asked p := by
  simp only [asked, hpc, hpid, ne_eq, hlife]

theorem exchangesWith_finish (s : World) (c : Call) (code : ℤ) (response : CString) (k : ℕ) :
    (s.finish c code response).exchangesWith k = s.exchangesWith k ++
      if s.addressee c.pid = some k then
        [⟨c.pid, c.request, s.addressee c.pid, code, response, report c code response⟩]
      else [] := by
  rw [exchangesWith, finish, List.filter_append]
  congr 1
  split <;> simp_all

theorem finish_not_receiving (s : World) (c : Call) (code : ℤ) (response : CString) :
    ∀ c' fd, (s.finish c code response).pc ≠ .receiving c' fd := by
  intro c' fd
  simp only [finish]
  split <;> simp

end World

/-- Every exchange is at one of its stages. -/
structure Agreement (s : World) : Prop where
  receiving : ∀ c fd, s.pc = .receiving c fd → ∃ (k : ℕ) (p : Process), s.procs[k]? = some p ∧
    p.life ≠ .reaped ∧ p.pid = c.pid ∧ s.fds.lookup fd = some ⟨p.reply, .read⟩
  phase : ∀ (k : ℕ) (p : Process), s.procs[k]? = some p →
    p.life = .live ∨ (s.asked p).isSome = true →
    Phase (s.exchangesWith k) p.mem (s.buffer p.command) (s.buffer p.reply) (s.asked p)
  addressee_lt : ∀ e ∈ s.exchanges, ∀ k, e.addressee = some k → k < s.procs.length

/-! ### Pipes and pids -/

/-- Two drivers have four different pipes. -/
theorem pipes_apart (hvalid : s.registry.Valid) (hk : s.procs[k]? = some p)
    (hl : s.procs[l]? = some q) (hne : k ≠ l) :
    q.command ≠ p.command ∧ q.command ≠ p.reply ∧ q.reply ≠ p.command ∧ q.reply ≠ p.reply := by
  have hkc : s.registry.children[k]? = some p.child := by simp [registry, hk]
  have hlc : s.registry.children[l]? = some q.child := by simp [registry, hl]
  have hinj := mt (hvalid.pipes_inj k l p.child q.child hkc hlc) hne
  rw [not_or] at hinj
  have hp := List.mem_of_getElem? hkc
  have hq := List.mem_of_getElem? hlc
  exact ⟨Ne.symm hinj.1, hvalid.pipes_ne _ hq _ hp, (hvalid.pipes_ne _ hp _ hq).symm,
    Ne.symm hinj.2⟩

theorem pipes_own (hvalid : s.registry.Valid) (hk : s.procs[k]? = some p) :
    p.command ≠ p.reply ∧ p.command < s.pipes ∧ p.reply < s.pipes := by
  have hp : p.child ∈ s.registry.children := List.mem_map_of_mem (List.mem_of_getElem? hk)
  exact ⟨hvalid.pipes_ne _ hp _ hp, hvalid.pipes_lt _ hp⟩

theorem eq_of_pid (hvalid : s.registry.Valid) (hk : s.procs[k]? = some p)
    (hl : s.procs[l]? = some q) (hp : p.life ≠ .reaped) (hq : q.life ≠ .reaped)
    (hpid : p.pid = q.pid) : k = l := by
  have hkc : s.registry.children[k]? = some p.child := by simp [registry, hk]
  have hlc : s.registry.children[l]? = some q.child := by simp [registry, hl]
  exact hvalid.pid_inj k l p.child q.child hkc hlc (by simpa [Process.child] using hp)
    (by simpa [Process.child] using hq) hpid

theorem addressee_eq (hvalid : s.registry.Valid) (hk : s.procs[k]? = some p)
    (hp : p.life ≠ .reaped) : s.addressee p.pid = some k := by
  cases hfind : s.addressee p.pid with
  | none =>
    rw [addressee, List.findIdx?_eq_none_iff] at hfind
    have := hfind p (List.mem_of_getElem? hk)
    simp [hp] at this
  | some l =>
    obtain ⟨hl, hq, -⟩ := List.findIdx?_eq_some_iff_getElem.mp hfind
    simp only [Bool.and_eq_true, bne_iff_ne, beq_iff_eq] at hq
    rw [eq_of_pid hvalid hk (List.getElem?_eq_getElem hl) hp hq.1 hq.2.symm]

namespace Agreement

theorem init : Agreement World.init := by
  constructor <;> simp [World.init]

/-! ### Moves outside of an exchange -/

theorem finish_addressee_lt
    (hlt : ∀ e ∈ s.exchanges, ∀ k, e.addressee = some k → k < s.procs.length) (c : Call)
    (code : ℤ) (response : CString) :
    ∀ e ∈ (s.finish c code response).exchanges, ∀ k, e.addressee = some k → k < s.procs.length := by
  intro e he k hk
  rcases List.mem_append.mp he with he | he
  · exact hlt e he k hk
  · rw [List.mem_singleton.mp he] at hk
    exact (List.findIdx?_eq_some_iff_getElem.mp hk).1

/-- The dispatcher does something else; pipes may be opened. -/
theorem other (h : Agreement s) (hvalid : s.registry.Valid) (hpc : ∀ c fd, s.pc ≠ .receiving c fd)
    (hpc' : ∀ c fd, t.pc ≠ .receiving c fd) (hprocs : t.procs = s.procs)
    (hexchanges : t.exchanges = s.exchanges)
    (hbuffer : ∀ pipe < s.pipes, t.buffer pipe = s.buffer pipe) : Agreement t where
  receiving := fun c fd hreceiving => absurd hreceiving (hpc' c fd)
  phase := fun k p hk hcond => by
    rw [hprocs] at hk
    rw [asked_of_not_receiving hpc'] at hcond ⊢
    obtain ⟨-, hcommand, hreply⟩ := pipes_own hvalid hk
    have hphase := h.phase k p hk (hcond.imp_right (by simp))
    rw [asked_of_not_receiving hpc] at hphase
    rw [hbuffer _ hcommand, hbuffer _ hreply, exchangesWith, hexchanges]
    exact hphase
  addressee_lt := hexchanges ▸ hprocs ▸ h.addressee_lt

/-- A driver moves; only its own pipes change. -/
theorem move (h : Agreement s) (hvalid : s.registry.Valid) (hk : s.procs[k]? = some p)
    (hlive : p.life = .live) (hprocs : t.procs = s.procs.set k p') (hlife : p'.life ≠ .reaped)
    (hpid : p'.pid = p.pid) (hcommand : p'.command = p.command) (hreply : p'.reply = p.reply)
    (hpc : t.pc = s.pc) (hfds : t.fds = s.fds)
    (hexchanges : t.exchanges = s.exchanges)
    (hbuffer : ∀ pipe, pipe ≠ p.command → pipe ≠ p.reply → t.buffer pipe = s.buffer pipe)
    (hphase : p'.life = .live ∨ (s.asked p).isSome = true →
      Phase (s.exchangesWith k) p'.mem (t.buffer p.command) (t.buffer p.reply) (s.asked p)) :
    Agreement t where
  receiving := fun c fd hreceiving => by
    obtain ⟨l, q, hl, hq, hqpid, hlookup⟩ := h.receiving c fd (hpc ▸ hreceiving)
    rw [hfds, hprocs]
    by_cases hkl : k = l
    · subst hkl
      obtain rfl := Option.some.inj (hk.symm.trans hl)
      exact ⟨k, p', List.getElem?_set_self (List.getElem?_eq_some_iff.mp hk).1, hlife,
        hpid.trans hqpid, hreply ▸ hlookup⟩
    · exact ⟨l, q, (List.getElem?_set_ne hkl).trans hl, hq, hqpid, hlookup⟩
  phase := fun l q hl hcond => by
    have hsame : t.exchangesWith l = s.exchangesWith l := by rw [exchangesWith, hexchanges]; rfl
    rw [hprocs] at hl
    rcases Registry.Valid.getElem?_set_some hl with ⟨rfl, rfl⟩ | ⟨hkl, hl⟩
    · have hasked : t.asked q = s.asked p := asked_congr hpc hpid (by simp [hlife, hlive])
      rw [hasked] at hcond ⊢
      rw [hsame, hcommand, hreply]
      exact hphase hcond
    · have hasked : t.asked q = s.asked q := asked_congr hpc rfl Iff.rfl
      obtain ⟨hcc, hcr, hrc, hrr⟩ := pipes_apart hvalid hk hl hkl
      rw [hasked] at hcond ⊢
      rw [hsame, hbuffer _ hcc hcr, hbuffer _ hrc hrr]
      exact h.phase l q hl hcond
  addressee_lt := by
    rw [hexchanges, hprocs, List.length_set]
    exact h.addressee_lt

/-- A driver is collected. -/
theorem reaped (h : Agreement s) {i : ℕ} {d : Driver} (hc : Collects s k t p i d) :
    Agreement t := by
  obtain ⟨command, hcleanup⟩ := hc.cleanup
  have hpc : ∀ c fd, s.pc ≠ .receiving c fd := by simp [hcleanup]
  have hpc' : ∀ c fd, t.pc ≠ .receiving c fd := by
    rw [hc.eq]
    exact hpc
  have hprocs : t.procs = s.procs.set k { p with life := .reaped } := by
    rw [hc.eq]
    rfl
  constructor
  · exact fun c fd hreceiving => absurd hreceiving (hpc' c fd)
  · intro l q hl hcond
    rw [asked_of_not_receiving hpc'] at hcond ⊢
    rw [hprocs] at hl
    rcases Registry.Valid.getElem?_set_some hl with ⟨rfl, rfl⟩ | ⟨hkl, hl⟩
    · simp at hcond
    · have hphase := h.phase l q hl (hcond.imp_right (by simp))
      rw [asked_of_not_receiving hpc] at hphase
      rw [hc.eq]
      exact hphase
  · rw [hprocs, List.length_set, hc.eq]
    exact h.addressee_lt

/-- A new driver has not been talked to. -/
theorem forked (h : Agreement s) (hvalid : s.registry.Valid)
    (hpc : ∀ c fd, s.pc ≠ .receiving c fd) {slot r₁ w₁ r₂ w₂ : ℕ} {pid : Int32}
    (hforks : Forks s slot t r₁ w₁ r₂ w₂ pid) : Agreement t := by
  have hpc' : ∀ c fd, t.pc ≠ .receiving c fd := by simp [hforks.eq]
  have hexchanges : t.exchanges = s.exchanges := by rw [hforks.eq]
  have hprocs := congrArg World.procs hforks.eq
  have hbuffer := congrArg World.buffer hforks.eq
  simp only at hprocs hbuffer
  constructor
  · exact fun c fd hreceiving => absurd hreceiving (hpc' c fd)
  · intro k q hk hcond
    have hsame : t.exchangesWith k = s.exchangesWith k := by rw [exchangesWith, hexchanges]; rfl
    rw [hprocs] at hk
    rw [hsame, hbuffer, asked_of_not_receiving hpc'] at *
    rcases Registry.Valid.getElem?_concat hk with hk | ⟨rfl, rfl⟩
    · have hphase := h.phase k q hk (hcond.imp_right (by simp))
      rw [asked_of_not_receiving hpc] at hphase
      obtain ⟨-, hlt, hlt'⟩ := pipes_own hvalid hk
      have hold : ∀ pipe < s.pipes, Function.update (Function.update s.buffer s.pipes [])
          (s.pipes + 1) [] pipe = s.buffer pipe := fun pipe hlt =>
        (Function.update_of_ne (Nat.ne_of_lt (Nat.lt_succ_of_lt hlt)) _ _).trans
          (Function.update_of_ne (Nat.ne_of_lt hlt) _ _)
      rw [hold _ hlt, hold _ hlt']
      exact hphase
    · have hnone : s.exchangesWith s.procs.length = [] := by
        rw [exchangesWith, List.filter_eq_nil_iff]
        intro e he heq
        exact absurd (h.addressee_lt e he _ (by simpa using heq)) (Nat.lt_irrefl _)
      rw [hnone]
      refine .idle ⟨by simp [DriverState.init], by simp [DriverState.init]⟩ ?_ ?_ .nil
      · exact (Function.update_of_ne (Nat.ne_of_lt (Nat.lt_succ_self _)) _ _).trans
          (Function.update_self _ _ _)
      · exact Function.update_self _ _ _
  · intro e he k hk
    rw [hprocs, List.length_append]
    exact Nat.lt_add_right _ (h.addressee_lt e (hexchanges ▸ he) k hk)

theorem create {o : Outcome} (h : Agreement s) (hvalid : s.registry.Valid) (hpc : s.pc = .creating)
    (hcreate : s.createDriver o = some t) : Agreement t := by
  have hnot : ∀ c fd, s.pc ≠ .receiving c fd := by simp [hpc]
  rcases createDriver_cases hcreate with ⟨-, rfl⟩ | ⟨drivers, slot, hslot, hrest⟩
  · exact h.other hvalid hnot (by simp [giveUp]) rfl rfl fun _ _ => rfl
  · obtain ⟨hvalid', -⟩ := freeSlot_valid hvalid hslot
    have h' : Agreement { s with drivers } := h.other hvalid hnot hnot rfl rfl fun _ _ => rfl
    rcases hrest with ⟨u, l, hopens, -, rfl⟩ | ⟨r₁, w₁, r₂, w₂, pid, hforks⟩
    · obtain ⟨-, -, hprocs, hexchanges, -, -, hbuffer⟩ := hopens.frame
      exact h'.other hvalid' hnot (by simp [giveUp]) hprocs hexchanges hbuffer
    · exact h'.forked hvalid' hnot hforks

/-! ### Moves of a driver -/

theorem die (h : Agreement s) (hvalid : s.registry.Valid) (hk : s.procs[k]? = some p)
    (hlive : p.life = .live) : Agreement (s.die k p) :=
  h.move hvalid hk hlive rfl (by simp) rfl rfl rfl rfl rfl rfl (fun _ _ _ => rfl)
    fun _ => h.phase k p hk (.inl hlive)

/-- A driver that waits goes on waiting. -/
theorem quiet (h : Agreement s) (hvalid : s.registry.Valid) (hk : s.procs[k]? = some p)
    (hlive : p.life = .live) {fds : Table} {mem : DriverState} (hm : Quiet p.mem) (hm' : Quiet mem)
    (hhandled : mem.handled = p.mem.handled) : Agreement (s.setProc k { p with fds, mem }) :=
  h.move hvalid hk hlive rfl (by simp [hlive]) rfl rfl rfl rfl rfl rfl (fun _ _ _ => rfl)
    fun _ => (h.phase k p hk (.inl hlive)).of_quiet hm hm' hhandled

theorem readCommand (h : Agreement s) (hvalid : s.registry.Valid) (hcustody : Custody s)
    (hk : s.procs[k]? = some p) (hlive : p.life = .live) (hm : Quiet p.mem)
    (hread : s.readCommand k p = some t) : Agreement t := by
  unfold World.readCommand at hread
  simp only [(hcustody.own p (List.mem_of_getElem? hk)).1] at hread
  obtain ⟨hown, -⟩ := pipes_own hvalid hk
  split at hread
  · split at hread
    · cases hread
    · cases hread
      exact h.die hvalid hk hlive
  · rename_i hne
    cases hread
    obtain ⟨r, hasked, hcommand, hreply, hagreed⟩ :=
      (h.phase k p hk (.inl hlive)).sent_of_quiet hm hne
    obtain ⟨hcstr, hdrop⟩ := read_message (request_sendable r)
    refine h.move hvalid hk hlive rfl (by simp [hlive]) rfl rfl rfl rfl rfl rfl
      (fun pipe hpipe _ => Function.update_of_ne hpipe _ _) fun _ => ?_
    rw [hasked]
    refine .handling r ?_ ?_ ?_ hagreed
    · rw [hcommand, hcstr]
    · exact (Function.update_self _ _ _).trans (hcommand ▸ hdrop)
    · exact (Function.update_of_ne hown.symm _ _).trans hreply

theorem writeReply (h : Agreement s) (hvalid : s.registry.Valid) (hcustody : Custody s)
    (hk : s.procs[k]? = some p) (hlive : p.life = .live) {text : CString}
    (hpc : p.mem.pc = .reply text) : Agreement (s.writeReply k p text) := by
  unfold World.writeReply
  simp only [(hcustody.own p (List.mem_of_getElem? hk)).2]
  obtain ⟨hown, -⟩ := pipes_own hvalid hk
  split
  · obtain ⟨r, hd, hs, hasked, rfl, hhandled, hanswers, hcommand, hreply, hagreed⟩ :=
      (h.phase k p hk (.inl hlive)).replying_of_pc hpc
    refine h.move hvalid hk hlive rfl (by simp [hlive]) rfl rfl rfl rfl rfl rfl
      (fun pipe _ hpipe => Function.update_of_ne hpipe _ _) fun _ => ?_
    rw [hasked]
    refine .answered r hd hs hhandled hanswers ⟨by simp, by simp⟩ ?_ ?_ hagreed
    · exact (Function.update_of_ne hown _ _).trans hcommand
    · refine (Function.update_self _ _ _).trans ?_
      rw [hreply, List.nil_append]
  · exact h.die hvalid hk hlive

theorem advance {now : Int64} (h : Agreement s) (hvalid : s.registry.Valid) (hcustody : Custody s)
    (hk : s.procs[k]? = some p) (hlive : p.life = .live)
    (hadvance : s.advance k p now = some t) : Agreement t := by
  unfold World.advance at hadvance
  split at hadvance
  · rename_i hpc
    cases hadvance
    exact h.quiet hvalid hk hlive ⟨by simp [hpc], by simp [hpc]⟩ ⟨by simp, by simp⟩ rfl
  · rename_i hpc
    cases hadvance
    exact h.quiet hvalid hk hlive ⟨by simp [hpc], by simp [hpc]⟩
      (p.mem.enterSelect_quiet now).1 (p.mem.enterSelect_quiet now).2
  · rename_i hpc
    exact h.readCommand hvalid hcustody hk hlive ⟨by simp [hpc], by simp [hpc]⟩ hadvance
  · rename_i hpc
    obtain ⟨mem, hmem, rfl⟩ := Option.map_eq_some_iff.mp hadvance
    obtain ⟨r, hasked, rfl, hcommand, hreply, hagreed⟩ :=
      (h.phase k p hk (.inl hlive)).handling_of_pc hpc
    obtain ⟨hd, mem', hmem', hhandled, hpc', hanswers⟩ := handle_answers p.mem r now
    obtain rfl := Option.some.inj (hmem.symm.trans hmem')
    refine h.move hvalid hk hlive rfl (by simp [hlive]) rfl rfl rfl rfl rfl rfl
      (fun _ _ _ => rfl) fun _ => ?_
    rw [hasked]
    exact .replying r hd p.mem.handled hhandled hanswers hpc' hcommand hreply hagreed
  · rename_i hpc
    cases hadvance
    exact h.writeReply hvalid hcustody hk hlive hpc

theorem timeOut (h : Agreement s) (hvalid : s.registry.Valid) (hk : s.procs[k]? = some p)
    (hlive : p.life = .live) (htime : s.timeOut k p = some t) : Agreement t := by
  unfold World.timeOut at htime
  split at htime
  · rename_i hpc _
    split at htime
    · cases htime
      exact h.quiet hvalid hk hlive ⟨by simp [hpc], by simp [hpc]⟩
        ⟨by simp [DriverState.timedOut], by simp [DriverState.timedOut]⟩ rfl
    · cases htime
  · cases htime

/-! ### The two halves of `send_command` -/

theorem send (h : Agreement s) (hvalid : s.registry.Valid) (hcustody : Custody s) {c : Call}
    (hpc : s.pc = .sending c) : Agreement (s.send c) := by
  have hnot : ∀ c fd, s.pc ≠ .receiving c fd := by simp [hpc]
  rcases send_cases hcustody hvalid c with
    ⟨hnone, hsend⟩ | ⟨k, p, fd, hk, hlife, hpid, hfd, ⟨hlive, hsend⟩ | ⟨-, hsend⟩⟩ <;> rw [hsend]
  · have hnot' := finish_not_receiving s c (-1) (notFoundText c.pid)
    constructor
    · exact fun c' fd hreceiving => absurd hreceiving (hnot' c' fd)
    · intro l q hl hcond
      rw [asked_of_not_receiving hnot'] at hcond ⊢
      have hphase := h.phase l q hl (hcond.imp_right (by simp))
      rw [asked_of_not_receiving hnot] at hphase
      rw [exchangesWith_finish, hnone, if_neg (by simp), List.append_nil]
      exact hphase
    · exact finish_addressee_lt h.addressee_lt c (-1) (notFoundText c.pid)
  · obtain ⟨hown, -⟩ := pipes_own hvalid hk
    constructor
    · rintro c' fd' hreceiving
      cases hreceiving
      exact ⟨k, p, hk, hlife, hpid, hfd⟩
    · intro l q hl hcond
      have hphase : q.life = .live → Phase (s.exchangesWith l) q.mem (s.buffer q.command)
          (s.buffer q.reply) none := fun hq => by
        have := h.phase l q hl (.inl hq)
        rwa [asked_of_not_receiving hnot] at this
      by_cases hkl : k = l
      · subst hkl
        obtain rfl := Option.some.inj (hk.symm.trans hl)
        have hasked : World.asked { s.append p.command (message c.request.text) with
            pc := .receiving c fd } p = some c.request := by
          simp [asked, hlife, hpid]
        rw [hasked]
        -- Nothing was asked of this driver, so its command pipe is empty and the message sent
        -- is all it holds.
        cases hphase hlive with
        | idle quiet hcommand hreply agreed =>
          refine .sent c.request quiet ?_ ?_ agreed
          · refine (Function.update_self _ _ _).trans ?_
            rw [hcommand, List.nil_append]
          · exact (Function.update_of_ne hown.symm _ _).trans hreply
      · have hasked : World.asked { s.append p.command (message c.request.text) with
            pc := .receiving c fd } q = none := by
          simp only [asked, ite_eq_right_iff, reduceCtorEq, imp_false, not_and]
          exact fun hq heq => hkl (eq_of_pid hvalid hk hl hlife hq (hpid.trans heq))
        rw [hasked] at hcond ⊢
        -- Another driver has two pipes of its own, and its exchange stands where it stood.
        obtain ⟨hcc, -, hrc, -⟩ := pipes_apart hvalid hk hl hkl
        have hidle := hphase (hcond.resolve_right (by simp))
        rwa [← Function.update_of_ne hcc (s.buffer p.command ++ message c.request.text) s.buffer,
          ← Function.update_of_ne hrc (s.buffer p.command ++ message c.request.text) s.buffer]
          at hidle
    · exact h.addressee_lt
  · exact h.other hvalid hnot (by simp) rfl rfl fun _ _ => rfl

/-- The driver that is waited for, and what it was asked. -/
theorem awaited (h : Agreement s) {c : Call} {fd : ℕ} (hpc : s.pc = .receiving c fd) :
    ∃ (k : ℕ) (p : Process), s.procs[k]? = some p ∧ p.life ≠ .reaped ∧ p.pid = c.pid ∧
      s.fds.lookup fd = some ⟨p.reply, .read⟩ ∧ s.asked p = some c.request := by
  obtain ⟨k, p, hk, hlife, hpid, hfd⟩ := h.receiving c fd hpc
  exact ⟨k, p, hk, hlife, hpid, hfd, by simp [asked, hpc, hlife, hpid]⟩

/-- What is read from a driver is its answer, whole and to this call. -/
theorem received (h : Agreement s) {c : Call} (hk : s.procs[k]? = some p)
    (hasked : s.asked p = some c.request) (hne : s.buffer p.reply ≠ []) :
    ∃ hd hs, p.mem.handled = hs ++ [hd] ∧ Answers c.request hd ∧ Quiet p.mem ∧
      s.buffer p.command = [] ∧ cstr ((s.buffer p.reply).take readMax) = hd.reply ∧
      (s.buffer p.reply).drop readMax = [] ∧ List.Forall₂ Agreed (s.exchangesWith k) hs := by
  obtain ⟨r, hd, hs, hr, hhandled, hanswers, hquiet, hcommand, hreply, hagreed⟩ :=
    (h.phase k p hk (.inr (by simp [hasked]))).answered_of_ne_nil hne
  obtain rfl := Option.some.inj (hasked.symm.trans hr)
  obtain ⟨hcstr, hdrop⟩ := read_message hanswers.sendable
  exact ⟨hd, hs, hhandled, hanswers, hquiet, hcommand, hreply ▸ hcstr, hreply ▸ hdrop, hagreed⟩

theorem receive (h : Agreement s) (hvalid : s.registry.Valid) (hcustody : Custody s) {c : Call}
    {fd : ℕ} (hpc : s.pc = .receiving c fd) (hreceive : s.receive c fd = some t) :
    Agreement t := by
  obtain ⟨k, p, hk, hlife, hpid, hfd, hasked⟩ := h.awaited hpc
  have haddressee : s.addressee c.pid = some k := hpid ▸ addressee_eq hvalid hk hlife
  -- Nothing is asked of any other driver.
  have hother : ∀ (l : ℕ) (q : Process), s.procs[l]? = some q → q.life = .live → k ≠ l →
      Phase (s.exchangesWith l) q.mem (s.buffer q.command) (s.buffer q.reply) none := by
    intro l q hl hq hkl
    have hnone : s.asked q = none := by
      simp only [asked, hpc, ite_eq_right_iff, reduceCtorEq, imp_false, not_and]
      exact fun hq' heq => hkl (eq_of_pid hvalid hk hl hlife hq' (hpid.trans heq))
    exact hnone ▸ h.phase l q hl (.inl hq)
  rcases receive_cases hcustody c hk hfd with
    ⟨-, -, heq⟩ | ⟨-, hdead, heq⟩ | ⟨hne, heq⟩ <;> rw [heq] at hreceive
  · cases hreceive
  · cases hreceive
    have hnot := finish_not_receiving s c (-1) (notRespondingText c.pid)
    constructor
    · exact fun c' fd hreceiving => absurd hreceiving (hnot c' fd)
    · intro l q hl hcond
      rw [asked_of_not_receiving hnot] at hcond ⊢
      have hq := hcond.resolve_right (by simp)
      have hkl : k ≠ l := by
        rintro rfl
        obtain rfl := Option.some.inj (hk.symm.trans hl)
        exact hdead hq
      rw [exchangesWith_finish, haddressee, if_neg (by simpa using hkl), List.append_nil]
      exact hother l q hl hq hkl
    · exact finish_addressee_lt h.addressee_lt c (-1) (notRespondingText c.pid)
  · cases hreceive
    obtain ⟨hd, hs, hhandled, hanswers, hquiet, hcommand, hcstr, hdrop, hagreed⟩ :=
      h.received hk hasked hne
    obtain ⟨hown, -⟩ := pipes_own hvalid hk
    rw [hcstr]
    have hnot := finish_not_receiving (s.consume p.reply) c 0 hd.reply
    have haddressee' : (s.consume p.reply).addressee c.pid = some k := haddressee
    constructor
    · exact fun c' fd hreceiving => absurd hreceiving (hnot c' fd)
    · intro l q hl hcond
      rw [asked_of_not_receiving hnot] at hcond ⊢
      rw [exchangesWith_finish, haddressee']
      by_cases hkl : k = l
      · subst hkl
        obtain rfl := Option.some.inj (hk.symm.trans hl)
        rw [if_pos rfl]
        refine .idle hquiet ?_ ?_ ?_
        · exact (Function.update_of_ne hown _ _).trans hcommand
        · exact (Function.update_self _ _ _).trans hdrop
        · rw [hhandled]
          exact List.rel_append hagreed (.cons (hanswers.agreed _) .nil)
      · have hidle := hother l q hl (hcond.resolve_right (by simp)) hkl
        obtain ⟨-, hcr, -, hrr⟩ := pipes_apart hvalid hk hl hkl
        rw [if_neg (by simpa using hkl), List.append_nil]
        rwa [← Function.update_of_ne hcr ((s.buffer p.reply).drop readMax) s.buffer,
          ← Function.update_of_ne hrr ((s.buffer p.reply).drop readMax) s.buffer] at hidle
    · exact finish_addressee_lt (s := s.consume p.reply) h.addressee_lt c 0 hd.reply

end Agreement

/-! ### Every move -/

theorem step_agreement {a : Action} (h : Agreement s) (hvalid : s.registry.Valid)
    (hcustody : Custody s) (hstep : step s a = some t) : Agreement t := by
  cases step_move hstep with
  | goesOn _ _ _ _ hbefore hafter =>
    exact h.other hvalid hbefore.2 hafter.2 rfl rfl fun _ _ => rfl
  | reap k _ hreap =>
    obtain ⟨p, i, d, hc⟩ := reap_collects hvalid hreap
    exact h.reaped hc
  | create o _ hpc hcreate => exact h.create hvalid hpc hcreate
  | send c hpc => exact h.send hvalid hcustody hpc
  | receive c fd _ hpc hreceive => exact h.receive hvalid hcustody hpc hreceive
  | driver _ k p _ _ hk hlive _ how =>
    obtain rfl | ⟨now, hadvance⟩ | htime := how
    · exact h.die hvalid hk hlive
    · exact h.advance hvalid hcustody hk hlive hadvance
    · exact h.timeOut hvalid hk hlive htime

/-- The three invariants of the system. -/
structure Sound (s : World) : Prop where
  valid : s.registry.Valid
  custody : Custody s
  agreement : Agreement s

theorem Sound.init : Sound World.init :=
  ⟨Registry.Valid.init, Custody.init, Agreement.init⟩

theorem Sound.step {a : Action} (h : Sound s) (hstep : Taxi.step s a = some t) : Sound t :=
  ⟨step_valid h.valid hstep, step_custody h.custody h.valid hstep,
    step_agreement h.agreement h.valid h.custody hstep⟩

theorem Sound.run {acts : List Action} (hrun : Transition.run Taxi.step World.init acts = some s) :
    Sound s := by
  have hpreserved : Preserved Taxi.step Sound := fun _ _ _ => Sound.step
  exact hpreserved.run Sound.init hrun

/-! ### The main result -/

/-- A driver and the dispatcher agree: at most one message is in the two pipes,
and the finished calls are the commands in the history of the driver, in order,
up to one that is still going on. -/
structure DriverAgrees (s : World) (k : ℕ) (p : Process) : Prop where
  inFlight : ∃ texts : List CString, texts.length ≤ 1 ∧ (∀ text ∈ texts, nul ∉ text) ∧
    s.buffer p.command ++ s.buffer p.reply = texts.flatMap message
  answered : ∃ done rest, p.mem.handled = done ++ rest ∧
    List.Forall₂ Agreed (s.exchangesWith k) done ∧ rest.length ≤ 1 ∧
    (s.asked p = none → rest = [])

theorem Phase.inFlight {done : List Exchange} {m : DriverState} {command reply : List Char}
    {a : Option Request} (h : Phase done m command reply a) :
    ∃ texts : List CString, texts.length ≤ 1 ∧ (∀ text ∈ texts, nul ∉ text) ∧
      command ++ reply = texts.flatMap message := by
  cases h with
  | sent r quiet hcommand hreply agreed =>
    exact ⟨[r.text], by simp, by simp [(request_sendable r).nul_notMem], by simp [hcommand, hreply]⟩
  | answered r h hs handled answers quiet hcommand hreply agreed =>
    exact ⟨[h.reply], by simp, by simp [answers.sendable.nul_notMem], by simp [hcommand, hreply]⟩
  | _ => exact ⟨[], by simp, by simp, by simp [*]⟩

theorem Phase.finished {done : List Exchange} {m : DriverState} {command reply : List Char}
    {a : Option Request} (h : Phase done m command reply a) :
    ∃ hs rest, m.handled = hs ++ rest ∧ List.Forall₂ Agreed done hs ∧ rest.length ≤ 1 ∧
      (a = none → rest = []) := by
  cases h with
  | idle _ _ _ agreed => exact ⟨m.handled, [], by simp, agreed, by simp, fun _ => rfl⟩
  | sent r _ _ _ agreed | handling r _ _ _ agreed =>
    exact ⟨m.handled, [], by simp, agreed, by simp, fun _ => rfl⟩
  | replying r h hs handled _ _ _ _ agreed | answered r h hs handled _ _ _ _ agreed =>
    exact ⟨hs, [h], handled, agreed, by simp, by simp⟩

/-- In every run, whatever drivers are created, die or time out: a driver that is
alive agrees with the dispatcher; a command to it is put into its pipe; and when
`send_command` returns, it returns the answer in the last entry of the history of
this driver, which is the entry of this very command. -/
theorem exchange_agrees {acts : List Action} (hrun : run step World.init acts = some s) {k : ℕ}
    {p : Process} (hk : s.procs[k]? = some p) (hlive : p.life = .live) :
    DriverAgrees s k p ∧
      (∀ c, s.pc = .sending c → c.pid = p.pid → ∃ fd, step s .send =
        some { s.append p.command (message c.request.text) with pc := .receiving c fd }) ∧
      ∀ c fd t, s.pc = .receiving c fd → c.pid = p.pid → step s .receive = some t →
        ∃ e h, t.exchanges = s.exchanges ++ [e] ∧ e.pid = c.pid ∧ e.request = c.request ∧
          e.addressee = some k ∧ t.out = s.out ++ [e.line] ∧
          p.mem.handled.getLast? = some h ∧ Agreed e h := by
  have hsound := Sound.run hrun
  have hunreaped : p.life ≠ .reaped := by simp [hlive]
  have haddressee := addressee_eq hsound.valid hk hunreaped
  have hphase := hsound.agreement.phase k p hk (.inl hlive)
  refine ⟨⟨hphase.inFlight, hphase.finished⟩, fun c hpc hpid => ?_, fun c fd t hpc hpid ht => ?_⟩
  · rcases send_cases hsound.custody hsound.valid c with
      ⟨hnone, -⟩ | ⟨l, q, fd, hl, hq, hqpid, -, ⟨-, hsend⟩ | ⟨hdead, -⟩⟩
    · rw [hpid, haddressee] at hnone
      cases hnone
    · obtain rfl := eq_of_pid hsound.valid hk hl hunreaped hq (hpid ▸ hqpid.symm)
      obtain rfl := Option.some.inj (hk.symm.trans hl)
      exact ⟨fd, by simp only [step, hpc, hsend]⟩
    · obtain rfl := eq_of_pid hsound.valid hk hl hunreaped hq (hpid ▸ hqpid.symm)
      obtain rfl := Option.some.inj (hk.symm.trans hl)
      exact absurd hlive hdead
  · obtain ⟨l, q, hl, hq, hqpid, hfd, hasked⟩ := hsound.agreement.awaited hpc
    obtain rfl := eq_of_pid hsound.valid hk hl hunreaped hq (hpid ▸ hqpid.symm)
    obtain rfl := Option.some.inj (hk.symm.trans hl)
    simp only [step, hpc] at ht
    rcases receive_cases hsound.custody c hk hfd with
      ⟨-, -, heq⟩ | ⟨-, hdead, -⟩ | ⟨hne, heq⟩
    · rw [heq] at ht
      cases ht
    · exact absurd hlive hdead
    · obtain ⟨h, hs, hhandled, hanswers, -, -, hcstr, -, -⟩ :=
        hsound.agreement.received hk hasked hne
      rw [heq, hcstr] at ht
      cases ht
      exact ⟨_, h, rfl, rfl, rfl, hpid ▸ haddressee, rfl, by simp [hhandled], hanswers.agreed _⟩

/-- A driver is created and given a task. -/
def oneTask : List Action :=
  [.type .createDriver, .collected, .create (.forked 3 4 5 6 10), .advance 0 100, .advance 0 100,
    .type (.sendTask 10 60), .collected, .send, .advance 0 101, .advance 0 101, .advance 0 101,
    .receive]

theorem exchange_agrees_oneTask :
    ∃ s p, run step World.init oneTask = some s ∧ s.procs[0]? = some p ∧ DriverAgrees s 0 p ∧
      s.out = [.created 10 0, .taskSent 10 60] := by
  have hend : (run step World.init oneTask).bind
      (fun s => s.procs[0]?.map fun p => (p.life, s.out)) =
        some (.live, [.created 10 0, .taskSent 10 60]) := by decide
  obtain ⟨s, hrun, hs⟩ := Option.bind_eq_some_iff.mp hend
  obtain ⟨p, hk, hp⟩ := Option.map_eq_some_iff.mp hs
  obtain ⟨hlive, hout⟩ := Prod.mk.inj hp
  exact ⟨s, p, hrun, hk, (exchange_agrees hrun hk hlive).1, hout⟩

end UnixLessons.Taxi

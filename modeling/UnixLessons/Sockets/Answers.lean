import UnixLessons.Sockets.LocalDatagrams
import UnixLessons.Transition.Run

/-!
# Where does the answer go?

A client is answered only as long as its socket is still the one under the path: every other
client that is started, or ends, removes it.

## Main results

* `answer_reaches_iff`: what must not happen between the `bind` of a client and the answer
* `one_answer`: no two clients print an answer
-/

namespace UnixLessons.LocalDatagrams

open Text Transition State

variable {N : ℕ} {leftover : Bool} {s t u : State N} {a : Action N}
  {acts before : List (Action N)} {j k : Fin N} {ok : Bool} {c : Client}

namespace Client

/-- What has come to a client. -/
def heard (c : Client) : List CString := c.queue ++ c.out

/-- It has made its call of `bind`. -/
def HasBound (c : Client) : Prop := c.pc ≠ .socket ∧ c.pc ≠ .unlink ∧ c.pc ≠ .bind

/-- The next statement is `unlink`. -/
def unlinks (c : Client) : Bool :=
  match c.pc with
  | .unlink | .remove _ => true
  | _ => false

/-- The answer is printed as it is. -/
theorem heard_receive {datagram : CString} {rest : List CString}
    (hqueue : c.queue = datagram :: rest) (hheard : c.heard = [response]) :
    (c.receive datagram rest).heard = c.heard := by
  rw [hheard]
  rw [heard, hqueue, List.cons_append, List.cons.injEq, List.append_eq_nil_iff] at hheard
  obtain ⟨rfl, rfl, hout⟩ := hheard
  simp only [heard, receive, hout]
  decide

end Client

open Client

/-! ### Steps -/

@[simp] theorem client_setClient_self (s : State N) (j : Fin N) (c : Client) :
    (s.setClient j c).client j = c :=
  Function.update_self ..

theorem client_setClient_of_ne (s : State N) (c : Client) (hk : k ≠ j) :
    (s.setClient j c).client k = s.client k :=
  Function.update_of_ne hk ..

/-- What a statement of a client does, whichever it is. -/
structure ClientMove (s : State N) (j : Fin N) (ok : Bool) (t : State N) : Prop where
  server : t.server = s.server
  others : ∀ k, k ≠ j → t.client k = s.client k
  heard : (s.client j).heard = [] ∨ (s.client j).heard = [response] →
    (t.client j).heard = (s.client j).heard
  hasBound : (s.client j).HasBound → (t.client j).HasBound
  file : if ok = true ∧ (s.client j).unlinks = true then t.file = .absent
    else t.file = s.file ∨ ((s.client j).pc = .bind ∧ s.file = .absent ∧ t.file = .socket j)

theorem clientMove_goto {pc : ClientPc} {s' : State N} (hserver : s'.server = s.server)
    (hclient : s'.client = s.client)
    (hbound : (s.client j).HasBound → ((s.client j).goto pc).HasBound)
    (hfile : if ok = true ∧ (s.client j).unlinks = true then s'.file = .absent
      else s'.file = s.file ∨ ((s.client j).pc = .bind ∧ s.file = .absent ∧ s'.file = .socket j)) :
    ClientMove s j ok (s'.clientGoto j pc) := by
  refine ⟨hserver, fun k hk => ?_, fun _ => ?_, fun h => ?_, hfile⟩
  · rw [clientGoto, client_setClient_of_ne _ _ hk, hclient]
  · rw [clientGoto, client_setClient_self, hclient]
    rfl
  · rw [clientGoto, client_setClient_self, hclient]
    exact hbound h

theorem clientMove_of_clientMain (hmain : s.clientMain j ok = some t) : ClientMove s j ok t := by
  cases hpc : (s.client j).pc with
  | socket =>
    simp only [clientMain, hpc, Option.some.injEq] at hmain
    subst hmain
    exact clientMove_goto rfl rfl (by simp [HasBound, hpc]) (by simp [unlinks, hpc])
  | unlink =>
    simp only [clientMain, hpc, Option.some.injEq] at hmain
    subst hmain
    refine clientMove_goto rfl rfl (by simp [HasBound, hpc]) ?_
    cases ok <;> simp [unlinks, State.unlink, hpc]
  | bind =>
    simp only [clientMain, hpc] at hmain
    split_ifs at hmain with hok hfile
    · obtain rfl := Option.some.inj hmain
      exact clientMove_goto rfl rfl (by simp [HasBound, hpc]) (by simp [unlinks, hpc, hfile])
    · obtain rfl := Option.some.inj hmain
      exact clientMove_goto rfl rfl (by simp [HasBound, hpc]) (by simp [unlinks, hpc])
  | sendto =>
    simp only [clientMain, hpc] at hmain
    split_ifs at hmain
    · obtain rfl := Option.some.inj hmain
      exact clientMove_goto rfl rfl (by simp [HasBound, goto]) (by simp [unlinks, hpc])
    · obtain rfl := Option.some.inj hmain
      exact clientMove_goto rfl rfl (by simp [HasBound, goto]) (by simp [unlinks, hpc])
  | recvfrom =>
    simp only [clientMain, hpc] at hmain
    split_ifs at hmain
    · cases hqueue : (s.client j).queue with
      | nil => simp [hqueue] at hmain
      | cons datagram rest =>
        rw [hqueue] at hmain
        obtain rfl := Option.some.inj hmain
        refine ⟨rfl, fun k hk => client_setClient_of_ne _ _ hk, fun hheard => ?_, fun _ => ?_, ?_⟩
        · have hsome : (s.client j).heard ≠ [] := by simp [heard, hqueue]
          rw [client_setClient_self]
          exact heard_receive hqueue (hheard.resolve_left hsome)
        · simp [HasBound, receive]
        · simp [unlinks, hpc, setClient]
    · obtain rfl := Option.some.inj hmain
      exact clientMove_goto rfl rfl (by simp [HasBound, goto]) (by simp [unlinks, hpc])
  | close failed =>
    simp only [clientMain, hpc, Option.some.injEq] at hmain
    subst hmain
    exact clientMove_goto rfl rfl (by simp [HasBound, goto]) (by simp [unlinks, hpc])
  | remove failed =>
    simp only [clientMain, hpc, Option.some.injEq] at hmain
    subst hmain
    refine clientMove_goto rfl rfl (fun _ => ?_) ?_
    · cases failed <;> simp [HasBound, goto]
    · cases ok <;> simp [unlinks, State.unlink, hpc]
  | done | failed => simp [clientMain, hpc] at hmain

/-- The answer goes to the socket under the path. -/
theorem answer_eq_some :
    s.answer = some t ↔ ∃ k, s.file = .socket k ∧ (s.client k).listens = true ∧
      t = s.setClient k { s.client k with queue := (s.client k).queue ++ [response] } := by
  unfold answer
  cases s.file with
  | absent | stale => simp
  | socket k =>
    dsimp only
    constructor
    · intro hanswer
      split_ifs at hanswer with hlistens
      exact ⟨k, rfl, hlistens, (Option.some.inj hanswer).symm⟩
    · rintro ⟨k', hk, hlistens, rfl⟩
      obtain rfl := File.socket.inj hk
      exact if_pos hlistens

/-- A statement of the server changes no client, unless it is the answer. -/
theorem serverMain_cases (hmain : s.serverMain ok = some t) :
    (s.server = .sendto ∧ ok = true ∧ ∃ v, s.answer = some v ∧ t = v.serverGoto .close) ∨
    (t.file = s.file ∧ t.client = s.client ∧ s.server ≠ .done ∧
      (t.server = .done ↔ s.server = .close) ∧ t.server ≠ .close) := by
  cases hserver : s.server with
  | socket | bind =>
    simp only [serverMain, hserver, Option.some.injEq] at hmain
    subst hmain
    cases ok <;> simp [serverGoto]
  | unlink | close =>
    simp only [serverMain, hserver, Option.some.injEq] at hmain
    subst hmain
    simp [serverGoto]
  | recvfrom =>
    simp only [serverMain, hserver] at hmain
    split_ifs at hmain
    · cases hinbox : s.inbox with
      | nil => simp [hinbox] at hmain
      | cons datagram rest =>
        rw [hinbox] at hmain
        obtain rfl := Option.some.inj hmain
        simp [serverGoto]
    · obtain rfl := Option.some.inj hmain
      simp [serverGoto]
  | sendto =>
    simp only [serverMain, hserver] at hmain
    split_ifs at hmain with hok
    · obtain ⟨v, hv, rfl⟩ := Option.map_eq_some_iff.mp hmain
      exact .inl ⟨rfl, hok, v, hv, rfl⟩
    · obtain rfl := Option.some.inj hmain
      simp [serverGoto]
  | done | failed => simp [serverMain, hserver] at hmain

/-! ### Invariants -/

/-- Nothing comes to a client before the server has answered, and then to one only. -/
structure Sound (s : State N) : Prop where
  heard : ∀ k, (s.client k).heard = [] ∨ (s.client k).heard = [response]
  single : ∀ j k, (s.client j).heard ≠ [] → (s.client k).heard ≠ [] → j = k
  quiet : s.server ≠ .close → s.server ≠ .done → ∀ k, (s.client k).heard = []

theorem Sound.start : Sound (start N leftover) :=
  ⟨fun _ => .inl rfl, fun _ _ h => absurd rfl h, fun _ _ _ => rfl⟩

theorem Sound.congr (h : Sound s) (hheard : ∀ k, (t.client k).heard = (s.client k).heard)
    (hserver : t.server ≠ .close → t.server ≠ .done → s.server ≠ .close ∧ s.server ≠ .done) :
    Sound t where
  heard k := hheard k ▸ h.heard k
  single j k hj hk := h.single j k (hheard j ▸ hj) (hheard k ▸ hk)
  quiet hclose hdone k := by
    obtain ⟨hclose', hdone'⟩ := hserver hclose hdone
    rw [hheard, h.quiet hclose' hdone']

theorem Sound.preserved : Preserved (step (N := N)) Sound := by
  intro s a t h hstep
  cases a with
  | server ok =>
    rcases serverMain_cases hstep with
      ⟨hserver, -, v, hanswer, rfl⟩ | ⟨-, hclient, hnot, hdone, -⟩
    · -- the first and only answer: so far nothing has come to anybody
      obtain ⟨k, -, -, rfl⟩ := answer_eq_some.mp hanswer
      have hquiet := h.quiet (by simp [hserver]) (by simp [hserver])
      have hnone := hquiet k
      rw [Client.heard, List.append_eq_nil_iff] at hnone
      have hother : ∀ j, j ≠ k → (((s.setClient k { s.client k with
          queue := (s.client k).queue ++ [response] }).serverGoto .close).client j).heard = [] := by
        intro j hj
        rw [serverGoto, client_setClient_of_ne _ _ hj]
        exact hquiet j
      refine ⟨fun j => ?_, fun j j' hj hj' => ?_, fun hclose => absurd rfl hclose⟩
      · by_cases hj : j = k
        · subst hj
          simp [serverGoto, Client.heard, hnone]
        · exact .inl (hother j hj)
      · have heq : ∀ i, _ → i = k := fun i hi => not_imp_comm.mp (hother i) hi
        rw [heq j hj, heq j' hj']
    · refine h.congr (fun k => by rw [hclient]) fun hclose hdone' => ?_
      exact ⟨fun heq => hdone' (hdone.mpr heq), hnot⟩
  | client j ok =>
    have hmove := clientMove_of_clientMain hstep
    refine h.congr (fun k => ?_) fun hclose hdone => hmove.server ▸ ⟨hclose, hdone⟩
    by_cases hk : k = j
    · subst hk
      exact hmove.heard (h.heard k)
    · rw [hmove.others k hk]

/-! ### The main results -/

/-- The step does not remove what is under the path. -/
def Undisturbed (s : State N) : Action N → Prop
  | .server _ => True
  | .client k ok => ¬ (ok = true ∧ (s.client k).unlinks = true)

/-- Once a client has made its call of `bind`, its socket can only go from the path. -/
theorem file_step (hbound : (s.client j).HasBound) (hstep : step s a = some t) :
    (t.client j).HasBound ∧ (t.file = .socket j ↔ s.file = .socket j ∧ Undisturbed s a) := by
  cases a with
  | server ok =>
    rcases serverMain_cases hstep with ⟨-, -, v, hanswer, rfl⟩ | ⟨hfile, hclient, -⟩
    · obtain ⟨k, -, -, rfl⟩ := answer_eq_some.mp hanswer
      refine ⟨?_, (and_iff_left trivial).symm⟩
      by_cases hj : j = k
      · subst hj
        simpa [serverGoto, HasBound] using hbound
      · rwa [serverGoto, client_setClient_of_ne _ _ hj]
    · rw [hfile, hclient]
      exact ⟨hbound, (and_iff_left trivial).symm⟩
  | client k ok =>
    have hmove := clientMove_of_clientMain hstep
    have hfile := hmove.file
    constructor
    · by_cases hj : j = k
      · subst hj
        exact hmove.hasBound hbound
      · rwa [hmove.others j hj]
    · rw [Undisturbed]
      split_ifs at hfile with hunlinks
      · simp [hfile, hunlinks]
      · rcases hfile with hsame | ⟨hbind, habsent, hnew⟩
        · rw [hsame]
          exact (and_iff_left hunlinks).symm
        · -- the one who binds now is another one
          have hne : k ≠ j := fun heq => hbound.2.2 (heq ▸ hbind)
          simp [habsent, hnew, hne]

/-- In every run with any number of clients: the answer that the server is about to send can
come to a client that has bound its socket before exactly if the socket is still open and
since then no `unlink` of any client has succeeded. -/
theorem answer_reaches_iff (hbefore : run step (start N leftover) before = some s)
    (hbind : (s.client j).pc = .bind) (hstep : step s (.client j true) = some t)
    (hrun : run step t acts = some u) (hserver : u.server = .sendto) :
    (∃ v, step u (.server true) = some v ∧ (v.client j).queue = [response]) ↔
      (u.client j).listens = true ∧ Along step Undisturbed t acts := by
  have hsound : Sound u :=
    Sound.preserved.run (Sound.preserved (Sound.preserved.run .start hbefore) hstep) hrun
  have hnone : ∀ k, (u.client k).queue = [] := by
    intro k
    have hquiet := hsound.quiet (by simp [hserver]) (by simp [hserver]) k
    exact (List.append_eq_nil_iff.mp hquiet).1
  -- right after `bind` the socket is under the path
  have ht : (t.client j).HasBound ∧ t.file = .socket j := by
    simp only [step, clientMain, hbind, if_true] at hstep
    split_ifs at hstep
    obtain rfl := Option.some.inj hstep
    exact ⟨by simp [clientGoto, HasBound, goto], rfl⟩
  have hfile : u.file = .socket j ↔ Along step Undisturbed t acts :=
    (along_iff (fun _ _ _ => file_step) ht.1 hrun).trans (and_iff_right ht.2)
  rw [← hfile, step, serverMain, hserver]
  simp only [if_true, Option.map_eq_some_iff, answer_eq_some]
  constructor
  · rintro ⟨_, ⟨v, ⟨k, hk, hlistens, rfl⟩, rfl⟩, hqueue⟩
    -- the answer went to whoever is under the path
    by_cases hj : j = k
    · subst hj
      exact ⟨hlistens, hk⟩
    · rw [serverGoto, client_setClient_of_ne _ _ hj, hnone] at hqueue
      cases hqueue
  · rintro ⟨hlistens, hj⟩
    refine ⟨_, ⟨_, ⟨j, hj, hlistens, rfl⟩, rfl⟩, ?_⟩
    rw [serverGoto, client_setClient_self, hnone]
    rfl

/-- The second client is started when the first one has sent its message: there is nothing
left that could be answered. -/
theorem answer_reaches_iff_removed :
    ∃ t u : State 2, run step t [.client 0 true, .client 1 true, .client 1 true, .server true] =
        some u ∧ u.server = .sendto ∧ (u.client 0).pc = .recvfrom ∧
      ¬ Along step Undisturbed t
        [.client 0 true, .client 1 true, .client 1 true, .server true] := by
  let before : List (Action 2) :=
    List.replicate 3 (.server true) ++ List.replicate 2 (.client 0 true)
  let acts : List (Action 2) := [.client 0 true, .client 1 true, .client 1 true, .server true]
  have hpc : (run step (start 2 false) before).map (fun s => (s.client 0).pc) = some .bind := by
    decide
  have hend : (run step (start 2 false) (before ++ .client 0 true :: acts)).map
      (fun u => (u.server, u.client 0, u.file)) =
      some (.sendto, ⟨.recvfrom, [], []⟩, .absent) := by decide
  obtain ⟨u, hall, hu⟩ := Option.map_eq_some_iff.mp hend
  obtain ⟨hserver, hclient, hfile⟩ := by simpa only [Prod.mk.injEq] using hu
  obtain ⟨s, hbefore, hrest⟩ := run_append_eq_some.mp hall
  obtain ⟨t, hstep, hrun⟩ := run_cons_eq_some.mp hrest
  rw [hbefore] at hpc
  have hiff := answer_reaches_iff hbefore (Option.some.inj hpc) hstep hrun hserver
  refine ⟨t, u, hrun, hserver, by rw [hclient], fun halong => ?_⟩
  -- an answer would be possible, but nothing is under the path
  obtain ⟨v, hv, -⟩ := hiff.mpr ⟨by rw [hclient]; rfl, halong⟩
  simp [step, serverMain, hserver, answer, hfile] at hv

/-- In no run do two clients print an answer, or one client two. -/
theorem one_answer (hrun : run step (start N leftover) acts = some s) :
    (∀ k, (s.client k).out = [] ∨ (s.client k).out = [response]) ∧
      ∀ j k, (s.client j).out ≠ [] → (s.client k).out ≠ [] → j = k := by
  have hsound := Sound.preserved.run Sound.start hrun
  refine ⟨fun k => ?_, fun j k hj hk => hsound.single j k ?_ ?_⟩
  · rcases hsound.heard k with hnone | hone
    · exact .inl (List.append_eq_nil_iff.mp hnone).2
    · rcases List.append_eq_singleton_iff.mp hone with ⟨-, hout⟩ | ⟨-, hout⟩
      · exact .inr hout
      · exact .inl hout
  · exact fun hnone => hj (List.append_eq_nil_iff.mp hnone).2
  · exact fun hnone => hk (List.append_eq_nil_iff.mp hnone).2

/-- The message is that of the first client, and the answer goes to the second one. -/
theorem one_answer_other :
    ∃ s : State 2, run step (start 2 true) (List.replicate 3 (.server true) ++
        List.replicate 4 (.client 0 true) ++ List.replicate 4 (.client 1 true) ++
        List.replicate 2 (.server true) ++ [.client 1 true]) = some s ∧
      s.client 0 = ⟨.recvfrom, [], []⟩ ∧ s.client 1 = ⟨.close false, [], [response]⟩ ∧
      ∀ k, (s.client k).out ≠ [] → k = 1 := by
  have hend : (run step (start 2 true) (List.replicate 3 (.server true) ++
      List.replicate 4 (.client 0 true) ++ List.replicate 4 (.client 1 true) ++
      List.replicate 2 (.server true) ++ [.client 1 true])).map
      (fun s => (s.client 0, s.client 1)) =
      some (⟨.recvfrom, [], []⟩, ⟨.close false, [], [response]⟩) := by decide
  obtain ⟨s, hrun, hs⟩ := Option.map_eq_some_iff.mp hend
  obtain ⟨hfirst, hsecond⟩ := by simpa only [Prod.mk.injEq] using hs
  refine ⟨s, hrun, hfirst, hsecond, fun k hk => (one_answer hrun).2 k 1 hk ?_⟩
  rw [hsecond]
  exact List.cons_ne_nil _ _

end UnixLessons.LocalDatagrams

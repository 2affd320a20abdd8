import UnixLessons.Echo.Clients

/-!
# Is every message answered?

The server sends each message back with its number, in the order in which the
client sent them, and a client has one message on its way at a time. But a message
that reads `CLIENT_SHUTDOWN` is taken for a good-bye and not answered at all, and of
a long message the end of the reply is lost.

## Main results

* `Talk`: where the one message or reply of a client may be
* `echoed_iff_answerable`: for which inputs all messages are answered in every run
-/

namespace UnixLessons.Echo

open Text Transition

variable {s t : Network} {a : Action} {k l : Key} {x y : Peer} {stdin : Key → CString}

/-- The number of the message at place `i`, as an `int` counts. -/
def numberAt (i : ℕ) : Int32 := Int32.ofNat (i + 1)

/-- The message at place `i` with its number. -/
def answer (i : ℕ) (m : CString) : CString := m ++ ' ' :: decimal (numberAt i).toInt

/-- Each message of client `k` that is not on its way any more was answered, once and
in order; a client that waits has its request or the reply on its way; and the server
can take the next request. -/
structure Echoed (s : Network) (k : Key) : Prop where
  answered : ∃ handled pending bye, (s.peer k).sent = handled ++ pending ∧
    (s.peer k).toServer = pending ++ bye ∧ (bye = [] ∨ bye = [clientShutdown]) ∧
    (s.peer k).answers = handled.mapIdx answer
  inFlight : (s.peer k).pc = .blocked →
    (∃ m, (s.peer k).sent.getLast? = some m ∧ m ∈ (s.peer k).toServer) ∨
      ∃ r, (s.peer k).answers.getLast? = some r ∧ r ∈ (s.peer k).toClient
  served : (s.peer k).toServer ≠ [] → (step s (.serve k)).isSome = true

/-- There is room in the history when the server takes a datagram. -/
def NotFull (s : Network) : Action → Prop
  | .serve _ => s.history.count < maxHistory
  | _ => True

instance (s : Network) : ∀ a, Decidable (NotFull s a)
  | .serve _ => inferInstanceAs (Decidable (_ < _))
  | .type _ | .receive _ | .interrupt _ => inferInstanceAs (Decidable True)

/-- No message is a good-bye, and each fits the reply buffer with its number. -/
def Answerable (ms : List CString) : Prop :=
  ∀ i m, ms[i]? = some m → m ≠ clientShutdown ∧ (answer i m).length < bufferSize

theorem answerable_nil : Answerable [] := by simp [Answerable]

theorem Answerable.mono {ms ns : List CString} (h : Answerable ns) (hpre : ms <+: ns) :
    Answerable ms := by
  rintro i m hm
  obtain ⟨rest, rfl⟩ := hpre
  have hlt : i < ms.length := (List.getElem?_eq_some_iff.mp hm).1
  exact h i m (by rw [List.getElem?_append_left hlt, hm])

theorem answerable_concat {ms : List CString} {m : CString} :
    Answerable (ms ++ [m]) ↔
      Answerable ms ∧ m ≠ clientShutdown ∧ (answer ms.length m).length < bufferSize := by
  constructor
  · intro h
    exact ⟨h.mono (List.prefix_append ..), h ms.length m (by simp)⟩
  · rintro ⟨h, hm⟩ i n hn
    by_cases hlt : i < ms.length
    · rw [List.getElem?_append_left hlt] at hn
      exact h i n hn
    · rw [List.getElem?_append_right (Nat.le_of_not_lt hlt)] at hn
      obtain ⟨hi, hin⟩ := List.getElem?_eq_some_iff.mp hn
      simp only [List.length_singleton] at hi
      obtain rfl : n = m := by simpa using hin.symm
      rwa [show i = ms.length by omega]

/-! ### Messages -/

theorem message_clean (line : CString) : nul ∉ message line :=
  fun h => nul_notMem_cstr line ((List.takeWhile_prefix _).subset h)

/-- The reply to a message is not taken for the notice of a shutdown. -/
theorem answer_ne_shutdown (i : ℕ) (m : CString) : answer i m ≠ serverShutdown := by
  intro h
  have hspace : ' ' ∈ answer i m := by simp [answer]
  rw [h] at hspace
  revert hspace
  decide

theorem answer_clean {m : CString} (i : ℕ) (hm : nul ∉ m) : nul ∉ answer i m := by
  have hdecimal := nul_notMem_decimal (numberAt i).toInt
  simp only [answer, List.mem_append, List.mem_cons, not_or]
  exact ⟨hm, by decide, hdecimal⟩

/-- The number the history holds after `n` messages of a client. -/
def numberAfter (n : ℕ) : Option Int32 := if n = 0 then none else some (numberAt n)

theorem getD_numberAfter (n : ℕ) : (numberAfter n).getD 1 = numberAt n := by
  unfold numberAfter
  split
  · rename_i hn
    rw [hn]
    rfl
  · rfl

theorem numberAfter_succ (n : ℕ) : some (numberAt n + 1) = numberAfter (n + 1) := by
  rw [numberAfter, if_neg (Nat.succ_ne_zero n), numberAt, numberAt, Int32.ofNat_add (n + 1) 1]
  rfl

/-- The server takes the message at place `n` of a client. -/
theorem serve_answer {h : History} {m : CString} {n : ℕ} (hw : h.WellFormed)
    (hroom : h.count < maxHistory) (hclean : nul ∉ m) (hmessage : m ≠ clientShutdown)
    (hshort : m.length < bufferSize) (hnumber : h.number k = numberAfter n) :
    ∃ h', serve h ⟨k.1, k.2, m⟩ = some (h', some (snprintf bufferSize (answer n m))) ∧
      h'.WellFormed ∧ h'.number = Function.update h.number k (numberAfter (n + 1)) ∧
      h'.count = if n = 0 then h.count + 1 else h.count := by
  have htext : Datagram.text ⟨k.1, k.2, m⟩ = m := cstr_of_notMem hclean
  have hkey : Datagram.key ⟨k.1, k.2, m⟩ = k := rfl
  obtain ⟨h', hserve, hw', hafter, hcount⟩ := serve_message (d := ⟨k.1, k.2, m⟩) hw hshort
    (by rwa [htext]) hroom
  rw [htext, hkey, hnumber, getD_numberAfter] at hserve
  rw [hkey, hnumber, getD_numberAfter, numberAfter_succ] at hafter
  refine ⟨h', hserve, hw', hafter, ?_⟩
  rw [hcount, hkey, hnumber, numberAfter]
  split <;> rfl

theorem length_le_answer (i : ℕ) (m : CString) : m.length ≤ (answer i m).length := by
  simp [answer]

/-! ### Where the message is -/

/-- Where a client and its last message are; `number` is what the server has. -/
inductive Talk (number : Option Int32) (x : Peer) : Prop
  | typing (pc : x.pc = .typing) (toServer : x.toServer = []) (toClient : x.toClient = [])
      (answers : x.answers = x.sent.mapIdx answer) (counted : number = numberAfter x.sent.length)
  | asked (handled : List CString) (m : CString) (pc : x.pc = .blocked)
      (sent : x.sent = handled ++ [m]) (toServer : x.toServer = [m]) (toClient : x.toClient = [])
      (answers : x.answers = handled.mapIdx answer)
      (counted : number = numberAfter handled.length)
  | answered (handled : List CString) (m : CString) (pc : x.pc = .blocked)
      (sent : x.sent = handled ++ [m]) (toServer : x.toServer = [])
      (toClient : x.toClient = [answer handled.length m])
      (answers : x.answers = x.sent.mapIdx answer) (counted : number = numberAfter x.sent.length)
  | stopped (handled pending bye : List CString) (pc : x.pc = .stopped)
      (sent : x.sent = handled ++ pending) (toServer : x.toServer = pending ++ bye)
      (farewell : bye = [] ∨ bye = [clientShutdown]) (answers : x.answers = handled.mapIdx answer)
      (one : pending.length ≤ 1) (counted : pending ≠ [] → number = numberAfter handled.length)

namespace Talk

variable {number : Option Int32}

theorem start (input : CString) : Talk none ⟨.typing, input, [], [], [], []⟩ :=
  .typing rfl rfl rfl rfl rfl

/-- The client stops and says good-bye or does not. -/
theorem stop (h : Talk number x) (hpc : x.pc ≠ .stopped) {bye : List CString}
    (hbye : bye = [] ∨ bye = [clientShutdown]) (hypc : y.pc = .stopped)
    (hsent : y.sent = x.sent) (htoServer : y.toServer = x.toServer ++ bye)
    (hanswers : y.answers = x.answers) : Talk number y := by
  cases h with
  | typing _ hserver _ hanswered _ =>
    exact .stopped x.sent [] bye hypc (by simpa using hsent) (by rw [htoServer, hserver]) hbye
      (hanswers.trans hanswered) (by simp) (by simp)
  | asked handled m _ hx hserver _ hanswered hcounted =>
    exact .stopped handled [m] bye hypc (hsent.trans hx) (by rw [htoServer, hserver]) hbye
      (hanswers.trans hanswered) (by simp) fun _ => hcounted
  | answered handled m _ hx hserver _ hanswered _ =>
    exact .stopped x.sent [] bye hypc (by simpa using hsent) (by rw [htoServer, hserver]) hbye
      (hanswers.trans hanswered) (by simp) (by simp)
  | stopped _ _ _ hstopped => exact absurd hstopped hpc

/-- The client reads a line and sends a message, or goes on, or stops. -/
theorem readMessage (h : Talk number x) (hpc : x.pc = .typing) : Talk number x.readMessage := by
  have hnot : x.pc ≠ .stopped := by simp [hpc]
  unfold Peer.readMessage
  split
  · exact h.stop hnot (.inl rfl) rfl rfl (by simp) rfl
  · rename_i line rest _
    cases h with
    | typing _ hserver hclient hanswered hcounted =>
      split
      · exact .typing hpc hserver hclient hanswered hcounted
      split
      · have htyping : Talk number { x with stdin := rest } :=
          .typing hpc hserver hclient hanswered hcounted
        exact htyping.stop hnot (.inr rfl) rfl rfl rfl rfl
      · exact .asked x.sent (message line) rfl rfl (by simp [hserver]) hclient hanswered hcounted
    | asked _ _ hblocked => simp [hpc] at hblocked
    | answered _ _ hblocked => simp [hpc] at hblocked
    | stopped _ _ _ hstopped => simp [hpc] at hstopped

/-- The client reads the reply and goes on. -/
theorem receive (h : Talk number x) (hpc : x.pc = .blocked) (hclean : ∀ m ∈ x.sent, nul ∉ m)
    (hfits : Answerable x.sent) (hreceive : x.receive = some y) : Talk number y := by
  unfold Peer.receive at hreceive
  cases h with
  | typing htyping => simp [hpc] at htyping
  | asked _ _ _ _ _ hclient => simp [hclient] at hreceive
  | answered handled m _ hsent hserver hclient hanswered hcounted =>
    rw [hsent] at hclean hfits
    have hshort := (answerable_concat.mp hfits).2.2
    have hnul : nul ∉ answer handled.length m := answer_clean _ (hclean m (by simp))
    simp only [hclient, stringIn_received hshort, cstr_of_notMem hnul, Option.map_some,
      Option.some.injEq, if_neg (answer_ne_shutdown handled.length m)] at hreceive
    subst hreceive
    exact .typing rfl hserver rfl hanswered hcounted
  | stopped _ _ _ hstopped => simp [hpc] at hstopped

/-- What is on its way to the server is a message of the loop or the good-bye. -/
theorem mem_toServer (h : Talk number x) {payload : CString} (hmem : payload ∈ x.toServer) :
    payload ∈ x.sent ∨ payload = clientShutdown := by
  cases h with
  | typing _ hserver => simp [hserver] at hmem
  | asked handled m _ hsent hserver =>
    rw [hserver, List.mem_singleton] at hmem
    exact .inl (by simp [hsent, hmem])
  | answered _ _ _ _ hserver => simp [hserver] at hmem
  | stopped handled pending bye _ hsent hserver hbye =>
    rw [hserver] at hmem
    rcases List.mem_append.mp hmem with hmem | hmem
    · exact .inl (hsent ▸ List.mem_append_right handled hmem)
    · rcases hbye with rfl | rfl
      · cases hmem
      · exact .inr (List.mem_singleton.mp hmem)

end Talk

/-! ### The invariant -/

/-- The history is in order, and each client has sent what its input makes it send
and has its last message in one place. -/
structure Running (stdin : Key → CString) (s : Network) : Prop where
  history : s.history.WellFormed
  talk : ∀ k, Talk (s.history.number k) (s.peer k)
  clean : ∀ k, ∀ m ∈ (s.peer k).sent, nul ∉ m
  reads : ∀ k, (s.peer k).pc ≠ .stopped →
    (s.peer k).sent ++ messages (s.peer k).stdin = messages (stdin k)
  sent : ∀ k, (s.peer k).sent <+: messages (stdin k)

namespace Running

theorem start (stdin : Key → CString) : Running stdin (start stdin) where
  history := History.wellFormed_zero
  talk k := by
    rw [Echo.start, History.number_zero]
    exact .start (stdin k)
  clean k m hm := by simp [Echo.start] at hm
  reads k _ := rfl
  sent k := List.nil_prefix

/-- One client moves; the numbers of the others stay. -/
theorem setPeer (h : Running stdin s) (hpeer : t.peer = Function.update s.peer k x)
    (hhistory : t.history.WellFormed)
    (hnumber : ∀ l, l ≠ k → t.history.number l = s.history.number l)
    (htalk : Talk (t.history.number k) x) (hclean : ∀ m ∈ x.sent, nul ∉ m)
    (hreads : x.pc ≠ .stopped → x.sent ++ messages x.stdin = messages (stdin k))
    (hsent : x.sent <+: messages (stdin k)) : Running stdin t := by
  refine ⟨hhistory, ?_, ?_, ?_, ?_⟩ <;> intro l <;> rw [hpeer] <;>
    rcases eq_or_ne l k with rfl | hne
  · rwa [Function.update_self]
  · rw [Function.update_of_ne hne, hnumber l hne]
    exact h.talk l
  · rwa [Function.update_self]
  · rw [Function.update_of_ne hne]
    exact h.clean l
  · rwa [Function.update_self]
  · rw [Function.update_of_ne hne]
    exact h.reads l
  · rwa [Function.update_self]
  · rw [Function.update_of_ne hne]
    exact h.sent l

theorem type (h : Running stdin s) (hpc : (s.peer k).pc = .typing) :
    Running stdin (s.setPeer k (s.peer k).readMessage) := by
  have hreads := h.reads k (by simp [hpc])
  have htalk := (h.talk k).readMessage hpc
  -- the three goals follow the cases of `readMessage`: end of input, an empty line, `exit` and
  -- a message
  refine h.setPeer rfl h.history (fun _ _ => rfl) htalk ?_ ?_ ?_ <;>
    unfold Peer.readMessage at htalk ⊢
  · split
    · exact h.clean k
    · rename_i line rest _
      split
      · exact h.clean k
      split
      · exact h.clean k
      · intro m hm
        rcases List.mem_append.mp hm with hm | hm
        · exact h.clean k m hm
        · rw [List.mem_singleton.mp hm]
          exact message_clean line
  · split
    · exact fun hnot => absurd rfl hnot
    · rename_i line rest hline
      rw [messages_some hline] at hreads
      split
      · rename_i hempty
        rw [if_pos hempty] at hreads
        exact fun _ => hreads
      rename_i hsome
      split
      · exact fun hnot => absurd rfl hnot
      · rename_i hexit
        rw [if_neg hsome, if_neg hexit] at hreads
        intro _
        simpa using hreads
  · split
    · exact h.sent k
    · rename_i line rest hline
      rw [messages_some hline] at hreads
      split
      · exact h.sent k
      rename_i hsome
      split
      · exact h.sent k
      · rename_i hexit
        rw [if_neg hsome, if_neg hexit] at hreads
        exact ⟨messages rest, by simpa using hreads⟩

theorem receive (h : Running stdin s) (hfits : ∀ k, Answerable (messages (stdin k)))
    (hpc : (s.peer k).pc = .blocked) (hreceive : (s.peer k).receive = some x) :
    Running stdin (s.setPeer k x) := by
  have htalk := (h.talk k).receive hpc (h.clean k) ((hfits k).mono (h.sent k)) hreceive
  -- a reply changes neither what was sent nor what is still to be read
  have hsame : x.sent = (s.peer k).sent ∧ x.stdin = (s.peer k).stdin := by
    unfold Peer.receive at hreceive
    split at hreceive
    · cases hreceive
    · obtain ⟨text, -, rfl⟩ := Option.map_eq_some_iff.mp hreceive
      exact ⟨rfl, rfl⟩
  refine h.setPeer rfl h.history (fun _ _ => rfl) htalk ?_ ?_ ?_ <;> rw [hsame.1]
  · exact h.clean k
  · rw [hsame.2]
    exact fun _ => h.reads k (by simp [hpc])
  · exact h.sent k

/-- The message of a client is answered. -/
theorem serveMessage (h : Running stdin s) (hfits : ∀ k, Answerable (messages (stdin k)))
    (hroom : s.history.count < maxHistory) {handled : List CString} {m : CString}
    (hsent : (s.peer k).sent = handled ++ [m])
    (hnumber : s.history.number k = numberAfter handled.length) :
    ∃ h', Echo.serve s.history ⟨k.1, k.2, m⟩ = some (h', some (answer handled.length m)) ∧
      h'.WellFormed ∧
      h'.number = Function.update s.history.number k (numberAfter (handled.length + 1)) := by
  have hall : Answerable (handled ++ [m]) := hsent ▸ (hfits k).mono (h.sent k)
  obtain ⟨-, hmessage, hshort⟩ := answerable_concat.mp hall
  have hclean : nul ∉ m := h.clean k m (by simp [hsent])
  obtain ⟨h', hserve, hw, hafter, -⟩ := serve_answer h.history hroom hclean hmessage
    ((length_le_answer _ m).trans_lt hshort) hnumber
  rw [snprintf_eq_self hshort] at hserve
  exact ⟨h', hserve, hw, hafter⟩

/-- The next datagram of a client is its message or its good-bye. -/
theorem serve (h : Running stdin s) (hfits : ∀ k, Answerable (messages (stdin k)))
    (hroom : s.history.count < maxHistory) (hserve : s.serve k = some t) : Running stdin t := by
  unfold Network.serve at hserve
  split at hserve
  · cases hserve
  rename_i payload toServer hqueue
  obtain ⟨⟨h', reply⟩, hserved, rfl⟩ := Option.map_eq_some_iff.mp hserve
  -- whatever the server does with the datagram, it is about this client only
  have hother : ∀ {n : Option Int32}, h'.number = Function.update s.history.number k n →
      ∀ l, l ≠ k → h'.number l = s.history.number l := by
    intro n hnumber l hne
    rw [hnumber, Function.update_of_ne hne]
  cases h.talk k with
  | typing _ hserver => simp [hserver] at hqueue
  -- the client waits for this answer
  | asked handled m hpc hsent hserver hclient hanswers hcounted =>
    rw [hserver] at hqueue
    cases hqueue
    obtain ⟨h₁, hanswer, hw, hnumber⟩ := h.serveMessage hfits hroom hsent hcounted
    cases hserved.symm.trans hanswer
    refine h.setPeer rfl hw (hother hnumber) ?_ (h.clean k) (fun _ => h.reads k (by simp [hpc]))
      (h.sent k)
    refine .answered handled payload hpc hsent rfl (by simp [hclient]) ?_ ?_
    · simp [hsent, hanswers, List.mapIdx_append]
    · simp [hnumber, hsent]
  | answered _ _ _ _ hserver => simp [hserver] at hqueue
  | stopped handled pending bye hpc hsent hserver hbye hanswers hone hcounted =>
    rw [hserver] at hqueue
    cases pending with
    | cons m pending =>
      -- the client has left, but its last message is answered all the same
      obtain rfl : pending = [] := by simpa using hone
      cases hqueue
      obtain ⟨h₁, hanswer, hw, hnumber⟩ := h.serveMessage hfits hroom hsent (hcounted (by simp))
      cases hserved.symm.trans hanswer
      refine h.setPeer rfl hw (hother hnumber) ?_ (h.clean k) (fun hnot => absurd hpc hnot)
        (h.sent k)
      refine .stopped (handled ++ [payload]) [] bye hpc (by simpa using hsent) rfl hbye ?_ (by simp)
        (by simp)
      simp [hanswers, List.mapIdx_append]
    | nil =>
      -- Only the good-bye is left.
      rcases hbye with rfl | rfl
      · cases hqueue
      · cases hqueue
        obtain ⟨h₁, hgone, hw, hnumber⟩ := serve_bye (d := ⟨k.1, k.2, clientShutdown⟩) h.history
          (show clientShutdown.length < bufferSize by decide)
          (show cstr clientShutdown = clientShutdown by decide)
        cases hserved.symm.trans hgone
        refine h.setPeer rfl hw (hother hnumber) ?_ (h.clean k) (fun hnot => absurd hpc hnot)
          (h.sent k)
        exact .stopped handled [] [] hpc hsent rfl (.inl rfl) (by simpa using hanswers) (by simp)
          (by simp)

theorem next (h : Running stdin s) (hfits : ∀ k, Answerable (messages (stdin k)))
    (hroom : NotFull s a) (hstep : step s a = some t) : Running stdin t := by
  cases a with
  | type k =>
    simp only [step] at hstep
    split at hstep
    · rename_i hpc
      cases hstep
      exact h.type hpc
    · cases hstep
  | serve k => exact h.serve hfits hroom hstep
  | receive k =>
    simp only [step] at hstep
    split at hstep
    · rename_i hpc
      obtain ⟨x, hreceive, rfl⟩ := Option.map_eq_some_iff.mp hstep
      exact h.receive hfits hpc hreceive
    · cases hstep
  | interrupt k =>
    simp only [step] at hstep
    split at hstep
    · cases hstep
    · rename_i hpc
      cases hstep
      refine h.setPeer rfl h.history (fun _ _ => rfl) ?_ (h.clean k) (fun hnot => absurd rfl hnot)
        (h.sent k)
      exact (h.talk k).stop hpc (.inr rfl) rfl rfl rfl rfl

/-- The invariant says where the message or the reply is. -/
theorem echoed (h : Running stdin s) (hfits : ∀ k, Answerable (messages (stdin k))) (k : Key) :
    Echoed s k := by
  constructor
  · cases h.talk k with
    | typing _ hserver _ hanswers _ => exact ⟨_, [], [], by simp, hserver, .inl rfl, hanswers⟩
    | asked handled m _ hsent hserver _ hanswers _ =>
      exact ⟨handled, [m], [], hsent, hserver, .inl rfl, hanswers⟩
    | answered _ _ _ _ hserver _ hanswers _ =>
      exact ⟨_, [], [], by simp, hserver, .inl rfl, hanswers⟩
    | stopped handled pending bye _ hsent hserver hbye hanswers _ _ =>
      exact ⟨handled, pending, bye, hsent, hserver, hbye, hanswers⟩
  · intro hpc
    cases h.talk k with
    | typing htyping => simp [hpc] at htyping
    | asked handled m _ hsent hserver _ _ _ => exact .inl ⟨m, by simp [hsent], by simp [hserver]⟩
    | answered handled m _ hsent _ hclient hanswers _ =>
      refine .inr ⟨answer handled.length m, ?_, by simp [hclient]⟩
      simp [hanswers, hsent, List.mapIdx_append]
    | stopped _ _ _ hstopped => simp [hpc] at hstopped
  · intro hqueue
    obtain ⟨payload, toServer, hcons⟩ := List.exists_cons_of_ne_nil hqueue
    have hshort : payload.length < bufferSize := by
      have hmem : payload ∈ (s.peer k).toServer := by simp [hcons]
      -- a message fits the buffer because its answer does, and the good-bye is short
      rcases (h.talk k).mem_toServer hmem with hsent | rfl
      · obtain ⟨i, hi⟩ := List.mem_iff_getElem?.mp hsent
        have hfit := ((hfits k).mono (h.sent k) i payload hi).2
        exact (length_le_answer i payload).trans_lt hfit
      · decide
    have hsome := serve_isSome (d := ⟨k.1, k.2, payload⟩) h.history hshort
    simpa [step, Network.serve, hcons] using hsome

end Running

/-! ### One client alone -/

theorem setPeer_setPeer : (s.setPeer k x).setPeer k y = s.setPeer k y := by
  simp [Network.setPeer]

@[simp] theorem peer_setPeer : (s.setPeer k x).peer k = x := by simp [Network.setPeer]

/-- The server takes a datagram and sends what it has to say to it. -/
theorem step_serve {payload : CString} (rest : List CString) {h' : History}
    {reply : Option CString} (hqueue : (s.peer k).toServer = payload :: rest)
    (hserve : Echo.serve s.history ⟨k.1, k.2, payload⟩ = some (h', reply)) :
    step s (.serve k) = some { s.setPeer k { s.peer k with
      toServer := rest
      toClient := (s.peer k).toClient ++ reply.toList
      answers := (s.peer k).answers ++ reply.toList } with history := h' } := by
  simp [step, Network.serve, hqueue, hserve]

/-- A client that is at `fgets` comes to its next message. -/
theorem leads_to_message {m : CString} {ms : List CString} (hpc : (s.peer k).pc = .typing)
    (hm : messages (s.peer k).stdin = m :: ms) :
    ∃ rest, messages rest = ms ∧ nul ∉ m ∧ m.length < bufferSize ∧
      Leads step NotFull s (s.setPeer k { s.peer k with
        stdin := rest
        toServer := (s.peer k).toServer ++ [m]
        sent := (s.peer k).sent ++ [m]
        pc := .blocked }) := by
  induction hlength : (s.peer k).stdin.length using Nat.strong_induction_on generalizing s with
  | h n ih =>
    have hstep : step s (.type k) = some (s.setPeer k (s.peer k).readMessage) := by
      simp [step, hpc]
    cases hread : fgets bufferSize (s.peer k).stdin with
    | none =>
      rw [messages_none hread] at hm
      cases hm
    | some read =>
      obtain ⟨line, rest⟩ := read
      rw [messages_some hread] at hm
      rw [Peer.readMessage, hread] at hstep
      dsimp only at hstep
      split at hm
      -- An empty line is skipped.
      · rename_i hempty
        rw [if_pos hempty] at hstep
        have hlt : rest.length < n :=
          hlength ▸ length_rest_lt (by decide : 1 < bufferSize) hread
        obtain ⟨rest', hrest, hclean, hshort, hleads⟩ :=
          ih rest.length hlt (s := s.setPeer k { s.peer k with stdin := rest }) (by simpa using hpc)
            (by simpa using hm) (by simp)
        rw [setPeer_setPeer, peer_setPeer] at hleads
        exact ⟨rest', hrest, hclean, hshort,
          (Leads.of_step (a := Action.type k) trivial hstep).trans hleads⟩
      rename_i hsome
      split at hm
      · cases hm
      · rename_i hexit
        rw [if_neg hsome, if_neg hexit] at hstep
        cases hm
        exact ⟨rest, rfl, message_clean line, length_message_lt hread,
          .of_step (a := Action.type k) trivial hstep⟩

/-- Client `k` has sent `n` messages and had them answered, and is the only one the
server knows. -/
structure Alone (input : CString) (k : Key) (n : ℕ) (s : Network) : Prop where
  history : s.history.WellFormed
  count : s.history.count ≤ n ∧ s.history.count ≤ 1
  number : s.history.number k = numberAfter n
  pc : (s.peer k).pc = .typing
  toServer : (s.peer k).toServer = []
  toClient : (s.peer k).toClient = []
  sent : (s.peer k).sent = (messages input).take n
  answers : (s.peer k).answers = (s.peer k).sent.mapIdx answer
  rest : messages (s.peer k).stdin = (messages input).drop n

namespace Alone

variable {input : CString} {n : ℕ}

theorem start (stdin : Key → CString) (k : Key) : Alone (stdin k) k 0 (start stdin) where
  history := History.wellFormed_zero
  count := by simp [Echo.start, History.zero]
  number := History.number_zero k
  pc := rfl
  toServer := rfl
  toClient := rfl
  sent := rfl
  answers := rfl
  rest := rfl

/-- If every state the client can come to is as it should be, its next message is
answered, and comes back. -/
theorem next (h : Alone input k n s) (hlt : n < (messages input).length)
    (hechoed : ∀ t, Leads step NotFull s t → Echoed t k) :
    ((messages input)[n] ≠ clientShutdown ∧ (answer n (messages input)[n]).length < bufferSize) ∧
      ∃ t, Leads step NotFull s t ∧ Alone input k (n + 1) t := by
  obtain ⟨m, hm⟩ : ∃ m, (messages input)[n] = m := ⟨_, rfl⟩
  have hrest : messages (s.peer k).stdin = m :: (messages input).drop (n + 1) := by
    rw [h.rest, List.drop_eq_getElem_cons hlt, hm]
  have hlength : (s.peer k).sent.length = n := by
    rw [h.sent, List.length_take]
    omega
  have hroom : s.history.count < maxHistory := h.count.2.trans_lt (by decide)
  obtain ⟨rest, hafter, hclean, hshort, hasked⟩ := leads_to_message h.pc hrest
  rw [h.toServer, List.nil_append] at hasked
  rw [hm]
  -- the client has sent the message
  let asked : Peer := { s.peer k with
    stdin := rest, toServer := [m], sent := (s.peer k).sent ++ [m], pc := .blocked }
  have hroom' : NotFull (s.setPeer k asked) (.serve k) := hroom
  have hmessage : m ≠ clientShutdown := by
    -- The good-bye would leave the client waiting for nothing.
    rintro rfl
    obtain ⟨h', hserve, -⟩ := serve_bye (d := ⟨k.1, k.2, clientShutdown⟩) h.history
      (show clientShutdown.length < bufferSize by decide)
      (show cstr clientShutdown = clientShutdown by decide)
    have hstep : step (s.setPeer k asked) (.serve k) = some _ :=
      step_serve [] (by simp [asked]) hserve
    have hserved : Leads step NotFull s _ := hasked.next hroom' hstep
    have hwaits := (hechoed _ hserved).inFlight
    simp [asked, h.toClient] at hwaits
  obtain ⟨h', hserve, hw, hnumber, hcount⟩ := serve_answer h.history hroom hclean hmessage hshort
    h.number
  -- the server has answered it
  let answered : Peer := { asked with
    toServer := []
    toClient := [snprintf bufferSize (answer n m)]
    answers := (s.peer k).answers ++ [snprintf bufferSize (answer n m)] }
  have hstep : step (s.setPeer k asked) (.serve k) =
      some { s.setPeer k answered with history := h' } := by
    rw [step_serve [] (s := s.setPeer k asked) (by simp [asked]) hserve]
    simp [setPeer_setPeer, asked, answered, h.toClient]
  have hanswered : Leads step NotFull s _ := hasked.next hroom' hstep
  -- the reply that came back is the whole answer, so it was not cut off
  have hwhole : snprintf bufferSize (answer n m) = answer n m := by
    obtain ⟨handled, pending, bye, hsent, hserver, -, hanswers⟩ := (hechoed _ hanswered).answered
    simp only [Network.setPeer, Function.update_self, answered, asked] at hsent hserver hanswers
    obtain ⟨rfl, rfl⟩ := List.append_eq_nil_iff.mp hserver.symm
    rw [List.append_nil] at hsent
    rw [← hsent, List.mapIdx_append, h.answers, hlength] at hanswers
    simpa using hanswers
  have hfits : (answer n m).length < bufferSize := (snprintf_eq_self_iff (by decide)).mp hwhole
  refine ⟨⟨hmessage, hfits⟩, ?_⟩
  have hreceive : step { s.setPeer k answered with history := h' } (.receive k) =
      some { s.setPeer k { answered with toClient := [], pc := .typing } with history := h' } := by
    have hnul : nul ∉ answer n m := answer_clean n hclean
    simp [step, Network.setPeer, answered, asked, Peer.receive, hwhole, stringIn_received hfits,
      cstr_of_notMem hnul, answer_ne_shutdown]
  refine ⟨_, hanswered.next (a := Action.receive k) trivial hreceive, hw, ?_, ?_, ?_, ?_, ?_,
    ?_, ?_, ?_⟩
  · dsimp only
    rw [hcount]
    split
    · have := h.count
      omega
    · exact ⟨h.count.1.trans (Nat.le_succ n), h.count.2⟩
  · exact (congrFun hnumber k).trans (Function.update_self ..)
  · simp [Network.setPeer]
  · simp [Network.setPeer, answered]
  · simp [Network.setPeer]
  · simp [Network.setPeer, answered, asked, h.sent, List.take_succ_eq_append_getElem hlt, hm]
  · simp [Network.setPeer, answered, asked, hwhole, h.answers, List.mapIdx_append, hlength]
  · simpa [Network.setPeer, answered, asked] using hafter

end Alone

/-- What a single client sends is answerable if all its replies are in order. -/
theorem answerable_of_echoed (k : Key)
    (hechoed : ∀ s, Leads step NotFull (start stdin) s → Echoed s k) :
    Answerable (messages (stdin k)) := by
  have hsteps : ∀ n ≤ (messages (stdin k)).length,
      Answerable ((messages (stdin k)).take n) ∧
        ∃ s, Leads step NotFull (start stdin) s ∧ Alone (stdin k) k n s := by
    -- one more message is answered at each step of the induction
    intro n
    induction n with
    | zero => exact fun _ => ⟨answerable_nil, _, .refl, .start stdin k⟩
    | succ n ih =>
      intro hlt
      obtain ⟨hbefore, s, hleads, halone⟩ := ih (Nat.le_of_succ_le hlt)
      obtain ⟨hfits, t, hnext, hthen⟩ := halone.next hlt fun t ht => hechoed t (hleads.trans ht)
      refine ⟨?_, t, hleads.trans hnext, hthen⟩
      rw [List.take_succ_eq_append_getElem hlt, answerable_concat, List.length_take,
        Nat.min_eq_left (Nat.le_of_succ_le hlt)]
      exact ⟨hbefore, hfits⟩
  simpa using (hsteps _ le_rfl).1

/-! ### The main result -/

/-- **Requests and replies.** For any number of clients and whatever their users type:
in every run in which the history is not full, each message is answered, once, with
the message and its number, exactly if no message reads like a good-bye and each fits
the reply buffer with its number. -/
theorem echoed_iff_answerable :
    (∀ s, Leads step NotFull (start stdin) s → ∀ k, Echoed s k) ↔
      ∀ k, Answerable (messages (stdin k)) := by
  constructor
  · intro hechoed k
    exact answerable_of_echoed k fun s hs => hechoed s hs k
  · intro hfits s hs k
    have hrunning : Running stdin s :=
      hs.keeps (fun _ _ _ h hroom hstep => h.next hfits hroom hstep) (.start stdin)
    exact hrunning.echoed hfits k

/-- A user types `CLIENT_SHUTDOWN`. -/
theorem not_echoed_clientShutdown :
    ¬ ∀ (stdin : Key → CString) s, Leads step NotFull (start stdin) s → ∀ k, Echoed s k := by
  intro hall
  let user : Key := (2130706433, 5000)
  let stdin : Key → CString := fun _ => "CLIENT_SHUTDOWN\n".toList
  have hend : (run step (start stdin) [.type user, .serve user]).map
      (fun s => ((s.peer user).pc, (s.peer user).toServer, (s.peer user).toClient)) =
      some (.blocked, [], []) := by decide
  obtain ⟨s, hrun, hs⟩ := Option.map_eq_some_iff.mp hend
  obtain ⟨hpc, hserver, hclient⟩ := by simpa only [Prod.mk.injEq] using hs
  have halong : Along step NotFull (start stdin) [.type user, .serve user] := by decide
  have hwaits := (hall stdin s ⟨_, hrun, halong⟩ user).inFlight hpc
  simp [hserver, hclient] at hwaits

end UnixLessons.Echo

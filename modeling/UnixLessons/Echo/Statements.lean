import UnixLessons.Echo.Clients

/-!
# The echo server statement by statement

`serve` is one round of the datagram loop. A signal may come between any two statements of
it, so here the round is cut into its statements: the shift loop of `remove_client` goes
cell by cell, and `add_client` fills the members of a cell one after the other before it
counts it.

Beside the history and the place in the program there are two sets that no statement reads.
`completed` are the clients whose `add_client` has returned and whose `remove_client` was not
called, `members` those from the statement that counts them to the one that counts them off.

## Main result

* `run_serve`: the statements of one round do what `serve` says
-/

namespace UnixLessons.Echo

open Text Arrays Transition

/-- The statement the server executes next. -/
inductive ServerPc where
  | receive
  /-- `strcmp`, with a datagram in the buffer. -/
  | compare (d : Datagram)
  /-- The search in `remove_client`. -/
  | findRemoved (d : Datagram)
  /-- The test of the shift loop. -/
  | shift (d : Datagram) (i : ℕ)
  | countOff (d : Datagram)
  /-- The search in the datagram loop. -/
  | find (d : Datagram) (buffer : CString)
  | checkRoom (d : Datagram) (buffer : CString)
  | setIpAddr (d : Datagram) (buffer : CString)
  | setPort (d : Datagram) (buffer : CString)
  | setNumber (d : Datagram) (buffer : CString)
  | countIn (d : Datagram) (buffer : CString)
  | addReturn (d : Datagram) (buffer : CString)
  | takeNumber (i : ℕ) (buffer : CString)
  | respond (buffer : CString) (number : Int32)
deriving DecidableEq

/-- The server between two statements, with what it has sent. -/
structure Server where
  history : History
  pc : ServerPc
  sent : List CString
  completed : Finset Key
  members : Finset Key

/-- A datagram is received, or the server goes on. -/
inductive Input where
  | datagram (d : Datagram)
  | next

namespace History

/-- Change the members of `client[i]`; `none` outside the array. -/
def modify (h : History) (i : ℕ) (f : Client → Client) : Option History :=
  h.client[i]?.map fun c => { h with client := h.client.setIfInBounds i (f c) }

end History

namespace Server

/-- The datagram loop begins. -/
def start : Server := ⟨.zero, .receive, [], ∅, ∅⟩

def goto (s : Server) (pc : ServerPc) : Server := { s with pc }

/-- `sendto`, at the end of a round. -/
def send (s : Server) (text : CString) : Server :=
  { s with pc := .receive, sent := s.sent ++ [text] }

/-- A member of `client[i]` is written. -/
def write (s : Server) (i : ℕ) (f : Client → Client) (pc : ServerPc) : Option Server :=
  (s.history.modify i f).map fun history => { s with history, pc }

/-- The next statement; `none` in `recvfrom`, and when something is read or written outside
its array. -/
def next (s : Server) : Option Server :=
  match s.pc with
  | .receive => none
  | .compare d =>
    (stringIn (received bufferSize d.payload)).map fun buffer =>
      if buffer = clientShutdown then
        { s with pc := .findRemoved d, completed := s.completed.erase d.key }
      else s.goto (.find d buffer)
  | .findRemoved d =>
    match findClient d.ipAddr d.port s.history with
    | none => some (s.goto .receive)
    | some i => some (s.goto (.shift d i))
  | .shift d i =>
    if i < s.history.count - 1 then
      s.history.client[i + 1]?.bind fun c => s.write i (fun _ => c) (.shift d (i + 1))
    else some (s.goto (.countOff d))
  | .countOff d =>
    some { s with
      history := { s.history with count := s.history.count - 1 }
      pc := .receive, members := s.members.erase d.key }
  | .find d buffer =>
    match findClient d.ipAddr d.port s.history with
    | some i => some (s.goto (.takeNumber i buffer))
    | none => some (s.goto (.checkRoom d buffer))
  | .checkRoom d buffer =>
    if s.history.count ≥ maxHistory then some (s.send historyFull)
    else some (s.goto (.setIpAddr d buffer))
  | .setIpAddr d buffer =>
    s.write s.history.count (fun c => { c with ipAddr := d.ipAddr }) (.setPort d buffer)
  | .setPort d buffer =>
    s.write s.history.count (fun c => { c with port := d.port }) (.setNumber d buffer)
  | .setNumber d buffer =>
    s.write s.history.count (fun c => { c with number := 1 }) (.countIn d buffer)
  | .countIn d buffer =>
    some { s with
      history := { s.history with count := s.history.count + 1 }
      pc := .addReturn d buffer, members := insert d.key s.members }
  | .addReturn d buffer =>
    some { s with
      pc := .takeNumber (s.history.count - 1) buffer, completed := insert d.key s.completed }
  | .takeNumber i buffer =>
    s.history.client[i]?.bind fun c =>
      s.write i (fun c => { c with number := c.number + 1 }) (.respond buffer c.number)
  | .respond buffer number =>
    some (s.send (snprintf bufferSize (buffer ++ ' ' :: decimal number.toInt)))

def step (s : Server) : Input → Option Server
  | .datagram d => if s.pc = .receive then some (s.goto (.compare d)) else none
  | .next => s.next

/-! ### One round -/

/-- The server goes on from one state to the other without receiving anything. -/
def GoesOn (s t : Server) : Prop := ∃ k, run step s (List.replicate k .next) = some t

variable {s t u : Server} {h : History} {d : Datagram} {buffer : CString} {i : ℕ}

theorem GoesOn.refl : s.GoesOn s := ⟨0, rfl⟩

theorem GoesOn.trans (hst : s.GoesOn t) (htu : t.GoesOn u) : s.GoesOn u := by
  obtain ⟨k, hk⟩ := hst
  obtain ⟨l, hl⟩ := htu
  refine ⟨k + l, ?_⟩
  rw [List.replicate_add]
  exact run_append_eq_some.mpr ⟨t, hk, hl⟩

theorem GoesOn.of_next (hnext : s.next = some t) : s.GoesOn t := ⟨1, run_singleton.trans hnext⟩

theorem GoesOn.next (hst : s.GoesOn t) (hnext : t.next = some u) : s.GoesOn u :=
  hst.trans (.of_next hnext)

theorem write_eq {c : Client} {f : Client → Client} {pc : ServerPc}
    (hread : s.history.client[i]? = some c) :
    s.write i f pc = some { s with
      history := { s.history with client := s.history.client.setIfInBounds i (f c) }
      pc } := by
  rw [write, History.modify, hread]
  rfl

/-- The shift loop, from the round with `k` more to go. -/
theorem shift_goesOn {client : Vector Client maxHistory} {k : ℕ} (hpc : s.pc = .shift d i)
    (hcount : i + k = s.history.count - 1) (hshift : shiftLeft s.history.client i k = some client) :
    ∃ t, s.GoesOn t ∧ t.pc = .countOff d ∧ t.history = { s.history with client } ∧
      t.sent = s.sent := by
  induction k generalizing s i with
  | zero =>
    refine ⟨s.goto (.countOff d), .of_next ?_, rfl, ?_, rfl⟩
    · rw [Server.next, hpc]
      exact if_neg (by omega)
    · rw [← Option.some.inj hshift]
      rfl
  | succ k ih =>
    rw [shiftLeft] at hshift
    split at hshift
    · rename_i c hread
      -- With rounds to go the test succeeds and the next cell is copied.
      have hmore : i < s.history.count - 1 := by omega
      have hlt : i < maxHistory := by
        have := (Vector.getElem?_eq_some_iff.mp hread).1
        omega
      let shifted : Server := { s with
        history := { s.history with client := s.history.client.setIfInBounds i c }
        pc := .shift d (i + 1) }
      have hwrite : s.next = some shifted := by
        rw [Server.next, hpc]
        dsimp only
        rw [if_pos hmore, hread, Option.bind_some, write_eq (Vector.getElem?_eq_getElem hlt)]
      have hcount' : i + 1 + k = s.history.count - 1 := by omega
      obtain ⟨t, hgo, hend, hhistory, hsent⟩ := ih (s := shifted) rfl hcount' hshift
      exact ⟨t, (GoesOn.of_next hwrite).trans hgo, hend, hhistory, hsent⟩
    · cases hshift

/-- From the number on: the reply is sent. -/
theorem takeNumber_goesOn {r : Option CString} (hpc : s.pc = .takeNumber i buffer)
    (hreply : reply s.history buffer i = some (h, r)) :
    ∃ t, s.GoesOn t ∧ t.pc = .receive ∧ t.history = h ∧ t.sent = s.sent ++ r.toList := by
  unfold reply at hreply
  split at hreply
  · cases hreply
  · rename_i c hread
    cases hreply
    have hnumber : s.next = some { s with
        history := { s.history with
          client := s.history.client.setIfInBounds i { c with number := c.number + 1 } }
        pc := .respond buffer c.number } := by
      rw [Server.next, hpc]
      dsimp only
      rw [hread, Option.bind_some, write_eq hread]
    exact ⟨_, (GoesOn.of_next hnumber).next rfl, rfl, rfl, rfl⟩

/-- `add_client` up to its return: the cell behind the others is filled and counted. -/
theorem add_goesOn (hpc : s.pc = .checkRoom d buffer)
    (hadd : addClient d.ipAddr d.port s.history = some (h, i)) :
    ∃ t, s.GoesOn t ∧ t.pc = .takeNumber i buffer ∧ t.history = h ∧ t.sent = s.sent := by
  unfold addClient at hadd
  split at hadd
  · cases hadd
  · rename_i hroom
    cases hadd
    have hlt : s.history.count < maxHistory := not_le.mp hroom
    -- Three writes to the same cell, then the cell is counted and the index returned.
    have hcheck : s.next = some (s.goto (.setIpAddr d buffer)) := by
      rw [Server.next, hpc]
      exact if_neg hroom
    have hread : ∀ (v : Vector Client maxHistory) (c : Client),
        (v.setIfInBounds s.history.count c)[s.history.count]? = some c :=
      fun v c => Vector.getElem?_setIfInBounds_self_of_lt hlt
    refine ⟨_, (((((GoesOn.of_next hcheck).next (write_eq (Vector.getElem?_eq_getElem hlt))).next
      (write_eq (hread _ _))).next (write_eq (hread _ _))).next rfl).next rfl, rfl, ?_, rfl⟩
    simp only [goto, Vector.setIfInBounds_setIfInBounds]

/-- A client that is found is in a cell in use. -/
theorem lt_of_findClient {ipAddr : UInt32} {port : UInt16}
    (hfind : findClient ipAddr port h = some i) : i < h.count := by
  have hlt := (List.findIdx?_eq_some_iff_getElem.mp hfind).1
  rw [History.entries, List.length_take] at hlt
  omega

/-- `remove_client` from its search on. -/
theorem remove_goesOn (hpc : s.pc = .findRemoved d)
    (hremove : removeClient d.ipAddr d.port s.history = some h) :
    ∃ t, s.GoesOn t ∧ t.pc = .receive ∧ t.history = h ∧ t.sent = s.sent := by
  unfold removeClient at hremove
  cases hfind : findClient d.ipAddr d.port s.history with
  | none =>
    rw [hfind] at hremove
    cases hremove
    have hsearch : s.next = some (s.goto .receive) := by
      rw [Server.next, hpc]
      dsimp only
      rw [hfind]
    exact ⟨_, .of_next hsearch, rfl, rfl, rfl⟩
  | some i =>
    rw [hfind] at hremove
    obtain ⟨client, hshift, rfl⟩ := Option.map_eq_some_iff.mp hremove
    have hsearch : s.next = some (s.goto (.shift d i)) := by
      rw [Server.next, hpc]
      dsimp only
      rw [hfind]
    have hcount : i + (s.history.count - 1 - i) = s.history.count - 1 := by
      have := lt_of_findClient hfind
      omega
    obtain ⟨t, hgo, hend, hhistory, hsent⟩ :=
      shift_goesOn (s := s.goto (.shift d i)) rfl hcount hshift
    have hcountOff : t.next = some { t with
        history := { t.history with count := t.history.count - 1 }
        pc := .receive, members := t.members.erase d.key } := by
      rw [Server.next, hend]
    exact ⟨_, ((GoesOn.of_next hsearch).trans hgo).next hcountOff, rfl, by rw [hhistory]; rfl,
      hsent⟩

/-- The datagram loop from its search on: a message is answered. -/
theorem answer_goesOn {r : Option CString} (hpc : s.pc = .find d buffer)
    (hanswer : (match findClient d.ipAddr d.port s.history with
      | some i => reply s.history buffer i
      | none =>
        match addClient d.ipAddr d.port s.history with
        | none => some (s.history, some historyFull)
        | some (h, i) => reply h buffer i) = some (h, r)) :
    ∃ t, s.GoesOn t ∧ t.pc = .receive ∧ t.history = h ∧ t.sent = s.sent ++ r.toList := by
  cases hfind : findClient d.ipAddr d.port s.history with
  | some i =>
    rw [hfind] at hanswer
    have hsearch : s.next = some (s.goto (.takeNumber i buffer)) := by
      rw [Server.next, hpc]
      dsimp only
      rw [hfind]
    obtain ⟨t, hgo, hend⟩ := takeNumber_goesOn (s := s.goto (.takeNumber i buffer)) rfl hanswer
    exact ⟨t, (GoesOn.of_next hsearch).trans hgo, hend⟩
  | none =>
    rw [hfind] at hanswer
    have hsearch : s.next = some (s.goto (.checkRoom d buffer)) := by
      rw [Server.next, hpc]
      dsimp only
      rw [hfind]
    cases hadd : addClient d.ipAddr d.port s.history with
    | none =>
      rw [hadd] at hanswer
      cases hanswer
      have hfull : s.history.count ≥ maxHistory := by
        by_contra hroom
        rw [addClient, if_neg hroom] at hadd
        cases hadd
      have hrefuse : (s.goto (.checkRoom d buffer)).next = some (s.send historyFull) :=
        if_pos hfull
      exact ⟨_, (GoesOn.of_next hsearch).next hrefuse, rfl, rfl, rfl⟩
    | some added =>
      obtain ⟨h₁, i⟩ := added
      rw [hadd] at hanswer
      obtain ⟨t, hgo, hpc', hhistory, hsent⟩ :=
        add_goesOn (s := s.goto (.checkRoom d buffer)) rfl hadd
      obtain ⟨u, hgo', hend, hhistory', hsent'⟩ := takeNumber_goesOn hpc' (hhistory ▸ hanswer)
      refine ⟨u, ((GoesOn.of_next hsearch).trans hgo).trans hgo', hend, hhistory', ?_⟩
      rw [hsent', hsent]
      rfl

/-- **The statements of one round.** Between two calls of `recvfrom` the server does what
`serve` says. -/
theorem run_serve {r : Option CString} (hpc : s.pc = .receive)
    (hserve : serve s.history d = some (h, r)) :
    ∃ k t, run step s (.datagram d :: List.replicate k .next) = some t ∧
      t.pc = .receive ∧ t.history = h ∧ t.sent = s.sent ++ r.toList := by
  suffices hgo : ∃ t, (s.goto (.compare d)).GoesOn t ∧ t.pc = .receive ∧ t.history = h ∧
      t.sent = s.sent ++ r.toList by
    obtain ⟨t, ⟨k, hk⟩, hend⟩ := hgo
    exact ⟨k, t, run_cons_eq_some.mpr ⟨_, if_pos hpc, hk⟩, hend⟩
  unfold serve at hserve
  split at hserve
  · cases hserve
  rename_i buffer hstring
  have hcompare : (s.goto (.compare d)).next = some (if buffer = clientShutdown then
      { s with pc := .findRemoved d, completed := s.completed.erase d.key }
      else s.goto (.find d buffer)) := by
    rw [Server.next, goto]
    dsimp only
    rw [hstring]
    rfl
  split at hserve
  · rename_i hbye
    rw [if_pos hbye] at hcompare
    obtain ⟨h', hremove, heq⟩ := Option.map_eq_some_iff.mp hserve
    cases heq
    obtain ⟨t, hgo, hend, hhistory, hsent⟩ := remove_goesOn
      (s := { s with pc := .findRemoved d, completed := s.completed.erase d.key }) rfl hremove
    exact ⟨t, (GoesOn.of_next hcompare).trans hgo, hend, hhistory, by simpa using hsent⟩
  · rename_i hbye
    rw [if_neg hbye] at hcompare
    obtain ⟨t, hgo, hend⟩ := answer_goesOn (s := s.goto (.find d buffer)) rfl hserve
    exact ⟨t, (GoesOn.of_next hcompare).trans hgo, hend⟩

end Server

end UnixLessons.Echo

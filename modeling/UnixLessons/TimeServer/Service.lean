import UnixLessons.TimeServer.MainLoop

/-!
# Every request is answered once, in its turn

Connections are served in the order in which they were made and datagrams in the order in
which they arrived, none of them twice, and each answer is one to what that client has sent.

## Main results

* `served_in_order`: what was served and what waits, after any run
* `take_turns`: neither of two requests that both wait is put off for many of the other kind
* `blocked_iff`, `silent_blocks`: the server waits only for requests, or for one client that
  it has accepted, and then for nobody else
-/

namespace UnixLessons.TimeServer

open Text Transition

variable {s t : Server} {a : Action} {as : List Action} {c conn k n : ℕ} {client : Address}
  {bytes : List Char} {time : CString} {e : Entry}

/-- The connection that is being read from. -/
def Pc.current : Pc → Option ℕ
  | .read conn _ => some conn
  | _ => none

/-- A datagram was reported in this round, and was not received yet. -/
def Pc.udpReady : Pc → Bool
  | .accept udpReady | .read _ udpReady => udpReady
  | .udp => true
  | .select => false

/-- What is received of a datagram, with its sender. -/
def receivable (d : Address × List Char) : Address × List Char := (d.1, readDatagram d.2)

/-- An entry of the log tells the truth: what was read of a connection is a beginning of what
its client has sent, and it is empty only if the client has closed without sending anything. -/
def Entry.Honest (s : Server) : Entry → Prop
  | .tcp conn client received _ => ∃ c, s.conns[conn]? = some c ∧ client = c.address ∧
      ∀ bytes ∈ received, bytes <+: c.sent ∧ bytes.length ≤ bufferSize - 1 ∧
        (bytes = [] → c.closed = true ∧ c.sent = [])
  | _ => True

/-- The invariant of the server. -/
structure Sound (s : Server) : Prop where
  /-- Connections leave the backlog in the order in which they were made, each once. -/
  conns : s.log.filterMap Entry.conn ++ (s.pc.current.toList ++ s.backlog) =
    List.range s.conns.length
  /-- So do the datagrams. -/
  datagrams : s.log.filterMap Entry.datagram ++ s.datagrams.map receivable =
    s.arrived.map receivable
  unread : ∀ ⦃k c⦄, k ∈ s.pc.current.toList ++ s.backlog → s.conns[k]? = some c → c.unread = c.sent
  honest : ∀ e ∈ s.log, e.Honest s
  reported : s.pc.udpReady = true → s.datagrams ≠ []
  waiting : ∀ udpReady, s.pc = .accept udpReady → s.backlog ≠ []

theorem sound_init : Sound .init where
  conns := rfl
  datagrams := rfl
  unread k c hk := by cases hk
  honest e he := by cases he
  reported h := by cases h
  waiting _ h := by cases h

/-! ### Moves of the clients -/

theorem Sound.lt_length (h : Sound s) (hk : k ∈ s.pc.current.toList ++ s.backlog) :
    k < s.conns.length := by
  rw [← List.mem_range, ← h.conns]
  exact List.mem_append_right _ hk

theorem Sound.connect (h : Sound s) (client : Address) :
    Sound { s with
      conns := s.conns ++ [⟨client, [], [], false⟩]
      backlog := s.backlog ++ [s.conns.length] } where
  conns := by
    rw [List.length_append, List.length_singleton, List.range_succ, ← h.conns]
    simp only [List.append_assoc]
  datagrams := h.datagrams
  unread k c hk hc := by
    rw [← List.append_assoc] at hk
    rcases List.mem_append.mp hk with hk | hk
    · rw [List.getElem?_append_left (h.lt_length hk)] at hc
      exact h.unread hk hc
    · obtain rfl := List.mem_singleton.mp hk
      rw [List.getElem?_concat_length] at hc
      rw [← Option.some.inj hc]
  honest e he := by
    have hold := h.honest e he
    cases e with
    | tcp conn client received time =>
      obtain ⟨c, hc, hrest⟩ := hold
      have hlt := (List.getElem?_eq_some_iff.mp hc).1
      exact ⟨c, (List.getElem?_append_left hlt).trans hc, hrest⟩
    | acceptFailed lost => trivial
    | udp received time => trivial
  reported := h.reported
  waiting _ _ := List.append_ne_nil_of_right_ne_nil _ (List.cons_ne_nil _ _)

/-- What a client does with its connection is more of the same. -/
theorem Sound.updateConn (h : Sound s) {f : Connection → Connection}
    (haddress : ∀ c, (f c).address = c.address)
    (hsent : ∀ c, ∃ bytes, (f c).sent = c.sent ++ bytes ∧ (f c).unread = c.unread ++ bytes)
    (hstep : s.updateConn conn f = some t) : Sound t := by
  rw [Server.updateConn] at hstep
  split at hstep
  · rename_i d hd
    split at hstep
    · cases hstep
    · rename_i hopen
      cases hstep
      have hlt := (List.getElem?_eq_some_iff.mp hd).1
      have hget : ∀ k, (s.conns.set conn (f d))[k]? =
          if conn = k then some (f d) else s.conns[k]? := by
        intro k
        rw [List.getElem?_set]
        split <;> rfl
      refine ⟨?_, h.datagrams, fun k c hk hc => ?_, fun e he => ?_, h.reported, h.waiting⟩
      · rw [List.length_set]
        exact h.conns
      · rw [hget] at hc
        split at hc
        · rename_i heq
          obtain rfl := Option.some.inj hc
          obtain ⟨bytes, hs, hu⟩ := hsent d
          rw [hs, hu, h.unread hk (heq ▸ hd)]
        · exact h.unread hk hc
      · have hold := h.honest e he
        cases e with
        | tcp k client received time =>
          obtain ⟨c, hc, haddr, hread⟩ := hold
          by_cases heq : conn = k
          · obtain rfl : d = c := Option.some.inj (hd.symm.trans (heq ▸ hc))
            refine ⟨f d, (hget k).trans (if_pos heq), haddr.trans (haddress d).symm, ?_⟩
            intro bytes hbytes
            obtain ⟨hpart, hlength, hnil⟩ := hread bytes hbytes
            obtain ⟨more, hs, -⟩ := hsent d
            refine ⟨?_, hlength, fun hempty => absurd (hnil hempty).1 hopen⟩
            rw [hs]
            exact hpart.trans (List.prefix_append _ _)
          · exact ⟨c, (hget k).trans ((if_neg heq).trans hc), haddr, hread⟩
        | acceptFailed lost => trivial
        | udp received time => trivial
  · cases hstep

theorem Sound.sendDatagram (h : Sound s) (client : Address) (bytes : List Char) :
    Sound { s with
      datagrams := s.datagrams ++ [(client, bytes)], arrived := s.arrived ++ [(client, bytes)] } :=
  { h with
    datagrams := by
      rw [List.map_append, List.map_append, ← h.datagrams, List.append_assoc]
    reported := fun _ => List.append_ne_nil_of_right_ne_nil _ (List.cons_ne_nil _ _)
    honest := fun e he => by
      have hold := h.honest e he
      cases e <;> exact hold }

/-! ### Moves of the server -/

theorem Sound.select (h : Sound s) (hpc : s.pc = .select) (hstep : s.select = some t) :
    Sound t := by
  have hconns := h.conns
  have hunread := h.unread
  rw [hpc] at hconns hunread
  rw [Server.select] at hstep
  split at hstep
  · rename_i hbacklog
    cases hstep
    refine ⟨hconns, h.datagrams, hunread, fun e he => ?_, fun hready => ?_, fun _ _ => hbacklog⟩
    · have hold := h.honest e he
      cases e <;> exact hold
    · simpa [Pc.udpReady] using hready
  · split at hstep
    · rename_i hdatagrams
      cases hstep
      refine ⟨hconns, h.datagrams, hunread, fun e he => ?_, fun _ => hdatagrams,
        fun _ h => nomatch h⟩
      have hold := h.honest e he
      cases e <;> exact hold
    · cases hstep

theorem Sound.accept (h : Sound s) {udpReady : Bool} {backlog : List ℕ}
    (hpc : s.pc = .accept udpReady) (hbacklog : s.backlog = conn :: backlog) :
    Sound { s with pc := .read conn udpReady, backlog } := by
  have hconns := h.conns
  have hunread := h.unread
  have hreported := h.reported
  rw [hpc] at hconns hunread hreported
  rw [hbacklog] at hconns hunread
  refine ⟨hconns, h.datagrams, hunread, fun e he => ?_, hreported, fun _ h => nomatch h⟩
  have hold := h.honest e he
  cases e <;> exact hold

/-- A connection is done with; what the handler did is added to the log. -/
theorem Sound.afterTcp (h : Sound s) {udpReady : Bool} {backlog : List ℕ}
    {conns : List Connection} (hready : s.pc.udpReady = udpReady)
    (hconns : (e.conn.toList ++ backlog) = s.pc.current.toList ++ s.backlog)
    (hdatagram : e.datagram = none) (hlength : conns.length = s.conns.length)
    (hunread : ∀ ⦃k c⦄, k ∈ backlog → conns[k]? = some c → c.unread = c.sent)
    (hold : ∀ e ∈ s.log, e.Honest { s with conns })
    (hnew : e.Honest { s with conns }) :
    Sound ({ s with conns, backlog }.afterTcp udpReady e) := by
  have hcurrent : (if udpReady then Pc.udp else Pc.select).current = none := by
    split <;> rfl
  refine ⟨?_, ?_, fun k c hk hc => ?_, fun x hx => ?_, fun hr => ?_, fun _ hpc => ?_⟩
  · simp only [Server.afterTcp, hcurrent, Option.toList_none, List.nil_append, hlength]
    have hsingle : [e].filterMap Entry.conn = e.conn.toList := by
      cases he : e.conn <;> simp [he]
    rw [List.filterMap_append, List.append_assoc, ← h.conns, ← hconns, hsingle]
  · simp only [Server.afterTcp]
    rw [List.filterMap_append, ← h.datagrams]
    simp [hdatagram]
  · simp only [Server.afterTcp, hcurrent, Option.toList_none, List.nil_append] at hk
    exact hunread hk hc
  · simp only [Server.afterTcp] at hx
    have hmem : x.Honest { s with conns } := by
      rcases List.mem_append.mp hx with hx | hx
      · exact hold x hx
      · rwa [List.mem_singleton.mp hx]
    cases x <;> exact hmem
  · refine h.reported (hready.trans ?_)
    cases udpReady
    · cases hr
    · rfl
  · simp only [Server.afterTcp] at hpc
    split at hpc <;> cases hpc

theorem Sound.nodup (h : Sound s) : (s.pc.current.toList ++ s.backlog).Nodup := by
  have hnodup := List.nodup_range (n := s.conns.length)
  rw [← h.conns] at hnodup
  exact (List.nodup_append.mp hnodup).2.1

theorem Sound.read (h : Sound s) {udpReady : Bool} (hpc : s.pc = .read conn udpReady)
    (hstep : s.read conn udpReady time = some t) : Sound t := by
  rw [Server.read] at hstep
  split at hstep
  · rename_i c hc
    split at hstep
    · cases hstep
    · rename_i hthere
      cases hstep
      have hlt := (List.getElem?_eq_some_iff.mp hc).1
      have hsent : c.unread = c.sent := h.unread (by rw [hpc]; exact List.mem_cons_self) hc
      have hnotMem : conn ∉ s.backlog := by
        have hnodup := h.nodup
        rw [hpc] at hnodup
        exact (List.nodup_cons.mp hnodup).1
      have hget : ∀ (d : Connection) (k : ℕ), (s.conns.set conn d)[k]? =
          if conn = k then some d else s.conns[k]? := by
        intro d k
        rw [List.getElem?_set]
        split <;> rfl
      refine h.afterTcp (by rw [hpc]; rfl) (by rw [hpc]; rfl) rfl List.length_set
        (fun k d hk hd => ?_) (fun x hx => ?_) ?_
      · have hne : conn ≠ k := fun heq => hnotMem (heq ▸ hk)
        rw [hget, if_neg hne] at hd
        exact h.unread (List.mem_append_right _ hk) hd
      · have hold := h.honest x hx
        cases x with
        | tcp k client received time =>
          obtain ⟨d, hd, haddr, hread⟩ := hold
          by_cases heq : conn = k
          · obtain rfl : c = d := Option.some.inj (hc.symm.trans (heq ▸ hd))
            exact ⟨_, (hget _ k).trans (if_pos heq), haddr, hread⟩
          · exact ⟨d, (hget _ k).trans ((if_neg heq).trans hd), haddr, hread⟩
        | acceptFailed lost => trivial
        | udp received time => trivial
      · refine ⟨_, (hget _ conn).trans (if_pos rfl), rfl, fun bytes hbytes => ?_⟩
        obtain rfl := Option.some.inj hbytes
        refine ⟨?_, List.length_take_le _ _, fun hnil => ?_⟩
        · rw [hsent]
          exact List.take_prefix _ _
        · have hunread : c.unread = [] := by
            rcases List.take_eq_nil_iff.mp hnil with hzero | hunread
            · exact absurd hzero (by decide)
            · exact hunread
          have hclosed : c.closed = true := by
            by_contra hopen
            exact hthere ⟨hunread, hopen⟩
          exact ⟨hclosed, hsent ▸ hunread⟩
  · cases hstep

theorem filterMap_conn_udp (received : Option (Address × List Char)) (time : CString) :
    [Entry.udp received time].filterMap Entry.conn = [] := rfl

theorem Sound.recvfrom (h : Sound s) (hpc : s.pc = .udp) (hstep : s.recvfrom time = some t) :
    Sound t := by
  have hconns := h.conns
  have hunread := h.unread
  rw [hpc] at hconns hunread
  rw [Server.recvfrom] at hstep
  split at hstep
  · rename_i client bytes datagrams hdatagrams
    cases hstep
    have hall := h.datagrams
    rw [hdatagrams] at hall
    refine ⟨?_, ?_, hunread, fun e he => ?_, (fun h => nomatch h), fun _ h => nomatch h⟩
    · rw [List.filterMap_append, filterMap_conn_udp, List.append_nil]
      exact hconns
    · rw [List.filterMap_append, ← hall]
      simp [Entry.datagram, receivable]
    · have hmem : e.Honest s := by
        rcases List.mem_append.mp he with he | he
        · exact h.honest e he
        · rw [List.mem_singleton.mp he]
          trivial
      cases e <;> exact hmem
  · cases hstep

theorem Sound.recvfromFails (h : Sound s) (hpc : s.pc = .udp) :
    Sound { s with pc := .select, log := s.log ++ [.udp none []] } := by
  have hconns := h.conns
  have hunread := h.unread
  rw [hpc] at hconns hunread
  refine ⟨?_, ?_, hunread, fun e he => ?_, (fun h => nomatch h), fun _ h => nomatch h⟩
  · rw [List.filterMap_append, filterMap_conn_udp, List.append_nil]
    exact hconns
  · rw [List.filterMap_append, ← h.datagrams]
    simp [Entry.datagram]
  · have hmem : e.Honest s := by
      rcases List.mem_append.mp he with he | he
      · exact h.honest e he
      · rw [List.mem_singleton.mp he]
        trivial
    cases e <;> exact hmem

theorem Sound.preserved : Preserved step Sound := by
  intro s a t h hstep
  cases a with
  | connect client =>
    cases hstep
    exact h.connect client
  | send conn bytes =>
    exact h.updateConn (f := fun c =>
      { c with sent := c.sent ++ bytes, unread := c.unread ++ bytes })
      (fun _ => rfl) (fun _ => ⟨bytes, rfl, rfl⟩) hstep
  | close conn =>
    exact h.updateConn (f := fun c => { c with closed := true }) (fun _ => rfl)
      (fun _ => ⟨[], (List.append_nil _).symm, (List.append_nil _).symm⟩) hstep
  | sendDatagram client bytes =>
    cases hstep
    exact h.sendDatagram client bytes
  | select =>
    simp only [step] at hstep
    split at hstep
    · rename_i hpc
      exact h.select hpc hstep
    · cases hstep
  | selectFails =>
    simp only [step] at hstep
    split at hstep
    · cases hstep
      exact h
    · cases hstep
  | accept =>
    simp only [step] at hstep
    split at hstep
    · rename_i hpc hbacklog
      cases hstep
      exact h.accept hpc hbacklog
    · cases hstep
  | acceptFails lost =>
    simp only [step] at hstep
    split at hstep
    · rename_i hpc hbacklog
      cases hstep
      refine h.afterTcp (by rw [hpc]; rfl) (by rw [hpc, hbacklog]; rfl) rfl rfl
        (fun k c hk hc => h.unread ?_ hc) h.honest trivial
      rw [hbacklog]
      exact List.mem_append_right _ (List.mem_cons_of_mem _ hk)
    · rename_i hpc
      cases hstep
      exact h.afterTcp (by rw [hpc]; rfl) (by rw [hpc]; rfl) rfl rfl
        (fun k c hk hc => h.unread (List.mem_append_right _ hk) hc) h.honest trivial
    · cases hstep
  | read time =>
    simp only [step] at hstep
    split at hstep
    · rename_i hpc
      exact h.read hpc hstep
    · cases hstep
  | readFails =>
    simp only [step] at hstep
    split at hstep
    · rename_i hpc
      obtain ⟨c, hc, rfl⟩ := Option.map_eq_some_iff.mp hstep
      exact h.afterTcp (by rw [hpc]; rfl) (by rw [hpc]; rfl) rfl rfl
        (fun k c hk hc => h.unread (List.mem_append_right _ hk) hc) h.honest
        ⟨c, hc, rfl, fun _ h => nomatch h⟩
    · cases hstep
  | recvfrom time =>
    simp only [step] at hstep
    split at hstep
    · rename_i hpc
      exact h.recvfrom hpc hstep
    · cases hstep
  | recvfromFails =>
    simp only [step] at hstep
    split at hstep
    · rename_i hpc
      cases hstep
      exact h.recvfromFails hpc
    · cases hstep

/-- Every connection and every datagram is served in its turn and once, or it waits, and what a
handler was given is what the client has sent. -/
theorem served_in_order (hrun : run step .init as = some s) :
    s.log.filterMap Entry.conn ++ (s.pc.current.toList ++ s.backlog) =
        List.range s.conns.length ∧
      s.log.filterMap Entry.datagram ++ s.datagrams.map receivable = s.arrived.map receivable ∧
      ∀ e ∈ s.log, e.Honest s := by
  have h : Sound s := Sound.preserved.run sound_init hrun
  exact ⟨h.conns, h.datagrams, h.honest⟩

/-- A client connects and a datagram arrives; both are served, and a third client waits. -/
def fewRequests : List Action :=
  [.connect ⟨1, 1⟩, .sendDatagram ⟨2, 2⟩ "TIME".toList, .select, .accept, .connect ⟨3, 3⟩,
    .send 0 "TI".toList, .send 0 "ME".toList, .read "12:00".toList, .recvfrom "12:00".toList]

theorem served_in_order_few : ∃ s, run step .init fewRequests = some s ∧
    s.log.filterMap Entry.conn ++ [1] = [0, 1] :=
  ⟨_, rfl, (@served_in_order _ fewRequests rfl).1⟩

/-! ### Connections and datagrams take turns -/

/-- Was this a call of `handle_udp_client`? -/
def Entry.isUdp : Entry → Bool
  | .udp _ _ => true
  | .tcp _ _ _ _ | .acceptFailed _ => false

variable {log : List Entry}

/-- The number of calls of `handle_tcp_client` in a log. -/
def tcpCalls (log : List Entry) : ℕ := log.countP (!·.isUdp)

/-- The number of calls of `handle_udp_client`. -/
def udpCalls (log : List Entry) : ℕ := log.countP (·.isUdp)

/-- The number of connections that are done with. -/
def served (log : List Entry) : ℕ := (log.filterMap Entry.conn).length

/-- The number of datagrams that were answered. -/
def answered (log : List Entry) : ℕ := (log.filterMap Entry.datagram).length

theorem tcpCalls_append : tcpCalls (log ++ [e]) = tcpCalls log + if e.isUdp then 0 else 1 := by
  cases h : e.isUdp <;> simp [tcpCalls, h]

theorem udpCalls_append : udpCalls (log ++ [e]) = udpCalls log + if e.isUdp then 1 else 0 := by
  cases h : e.isUdp <;> simp [udpCalls, h]

theorem served_append : served (log ++ [e]) = served log + e.conn.toList.length := by
  cases h : e.conn <;> simp [served, h]

theorem answered_append : answered (log ++ [e]) = answered log + e.datagram.toList.length := by
  cases h : e.datagram <;> simp [answered, h]

/-- What a step does to the queues, the log and the place in the loop. -/
inductive Turn (s : Server) : Action → Server → Prop
  /-- A client does something, or `select` fails. -/
  | wait {a : Action} {t : Server} (hpc : t.pc = s.pc) (hlog : t.log = s.log)
      (hbacklog : s.backlog.length ≤ t.backlog.length)
      (hdatagrams : s.datagrams.length ≤ t.datagrams.length) : Turn s a t
  | selectTcp {a : Action} (hpc : s.pc = .select) (hbacklog : s.backlog ≠ []) :
      Turn s a { s with pc := .accept (!s.datagrams.isEmpty) }
  | selectUdp {a : Action} (hpc : s.pc = .select) (hbacklog : s.backlog = [])
      (hdatagrams : s.datagrams ≠ []) :
      Turn s a { s with pc := .udp }
  | accept {a : Action} {udpReady : Bool} {conn : ℕ} {backlog : List ℕ}
      (hpc : s.pc = .accept udpReady)
      (hbacklog : s.backlog = conn :: backlog) :
      Turn s a { s with pc := .read conn udpReady, backlog }
  /-- The call of `handle_tcp_client` returns, with the connection or without one. -/
  | tcp {a : Action} {udpReady : Bool} {conns : List Connection} {backlog : List ℕ} {e : Entry}
      (hpc : s.pc = .accept udpReady ∨ ∃ conn, s.pc = .read conn udpReady)
      (he : e.isUdp = false) (hdatagram : e.datagram = none)
      (hbacklog : s.pc.current.toList.length + s.backlog.length =
        e.conn.toList.length + backlog.length) :
      Turn s a ({ s with conns, backlog }.afterTcp udpReady e)
  | recvfrom {a : Action} {d : Address × List Char} {datagrams : List (Address × List Char)}
      {time : CString} (hpc : s.pc = .udp) (hdatagrams : s.datagrams = d :: datagrams) :
      Turn s a { s with
        pc := .select, datagrams, log := s.log ++ [.udp (some (receivable d)) time] }
  | recvfromFails (hpc : s.pc = .udp) :
      Turn s .recvfromFails { s with pc := .select, log := s.log ++ [.udp none []] }

theorem turn_of_step (hstep : step s a = some t) : Turn s a t := by
  cases a with
  | connect client =>
    cases hstep
    exact .wait rfl rfl (by simp) le_rfl
  | send conn bytes | close conn =>
    simp only [step, Server.updateConn] at hstep
    split at hstep
    · split at hstep
      · cases hstep
      · cases hstep
        exact .wait rfl rfl le_rfl le_rfl
    · cases hstep
  | sendDatagram client bytes =>
    cases hstep
    exact .wait rfl rfl le_rfl (by simp)
  | select =>
    simp only [step] at hstep
    split at hstep
    · rename_i hpc
      rw [Server.select] at hstep
      split at hstep
      · rename_i hbacklog
        cases hstep
        exact .selectTcp hpc hbacklog
      · rename_i hbacklog
        split at hstep
        · rename_i hdatagrams
          cases hstep
          exact .selectUdp hpc (not_not.mp hbacklog) hdatagrams
        · cases hstep
    · cases hstep
  | selectFails =>
    simp only [step] at hstep
    split at hstep
    · cases hstep
      exact .wait rfl rfl le_rfl le_rfl
    · cases hstep
  | accept =>
    simp only [step] at hstep
    split at hstep
    · rename_i hpc hbacklog
      cases hstep
      exact .accept hpc hbacklog
    · cases hstep
  | acceptFails lost =>
    simp only [step] at hstep
    split at hstep
    · rename_i hpc hbacklog
      cases hstep
      refine .tcp (.inl hpc) rfl rfl ?_
      rw [hpc, hbacklog, List.length_cons]
      simp [Pc.current, Entry.conn, Nat.add_comm]
    · rename_i hpc
      cases hstep
      refine .tcp (.inl hpc) rfl rfl ?_
      rw [hpc]
      rfl
    · cases hstep
  | read time =>
    simp only [step] at hstep
    split at hstep
    · rename_i hpc
      rw [Server.read] at hstep
      split at hstep
      · split at hstep
        · cases hstep
        · cases hstep
          refine .tcp (.inr ⟨_, hpc⟩) rfl rfl ?_
          rw [hpc]
          rfl
      · cases hstep
    · cases hstep
  | readFails =>
    simp only [step] at hstep
    split at hstep
    · rename_i hpc
      obtain ⟨c, -, rfl⟩ := Option.map_eq_some_iff.mp hstep
      refine .tcp (.inr ⟨_, hpc⟩) rfl rfl ?_
      rw [hpc]
      rfl
    · cases hstep
  | recvfrom time =>
    simp only [step] at hstep
    split at hstep
    · rename_i hpc
      rw [Server.recvfrom] at hstep
      split at hstep
      · rename_i hdatagrams
        cases hstep
        exact .recvfrom hpc hdatagrams
      · cases hstep
    · cases hstep
  | recvfromFails =>
    simp only [step] at hstep
    split at hstep
    · rename_i hpc
      cases hstep
      exact .recvfromFails hpc
    · cases hstep

/-- The calls of `handle_udp_client` that are to come before the next `select`, the reported
datagram of a connection apart. -/
def Pc.pending : Pc → ℕ
  | .udp => 1
  | .select | .accept _ | .read _ _ => 0

theorem Pc.pending_le_one : ∀ pc : Pc, pc.pending ≤ 1
  | .udp => Nat.le_refl 1
  | .select | .accept _ | .read _ _ => Nat.zero_le 1

/-- As long as one of the datagrams of `s` still waits, a datagram is reported in every round,
and the connections are ahead only while the datagram of the round is still to come. -/
structure DatagramsKeepUp (s t : Server) : Prop where
  waiting : answered s.log + s.datagrams.length ≤ answered t.log + t.datagrams.length
  ahead : answered s.log + s.datagrams.length ≤ answered t.log ∨
    (t.pc = .select ∨ t.pc.udpReady = true) ∧
      tcpCalls t.log + answered s.log ≤ tcpCalls s.log + answered t.log + t.pc.pending

/-- As long as one of the connections of `s` still waits, every round begins with a
connection. -/
structure ConnectionsKeepUp (s t : Server) : Prop where
  waiting : served s.log + s.backlog.length ≤
    served t.log + (t.pc.current.toList.length + t.backlog.length)
  ahead : served s.log + s.backlog.length ≤ served t.log ∨
    udpCalls t.log + tcpCalls s.log + t.pc.pending ≤ udpCalls s.log + tcpCalls t.log

variable {s₀ : Server}

theorem DatagramsKeepUp.step (h : DatagramsKeepUp s₀ s) (hfails : a ≠ .recvfromFails)
    (hstep : step s a = some t) : DatagramsKeepUp s₀ t := by
  obtain ⟨hwaiting, hahead⟩ := h
  cases turn_of_step hstep with
  | wait hpc hlog hbacklog hdatagrams =>
    rw [← hlog, ← hpc] at hahead
    rw [← hlog] at hwaiting
    exact ⟨hwaiting.trans (Nat.add_le_add_left hdatagrams _), hahead⟩
  | selectTcp hpc hbacklog =>
    refine ⟨hwaiting, ?_⟩
    rcases Nat.lt_or_ge (answered s.log) (answered s₀.log + s₀.datagrams.length) with hlt | hle
    -- a datagram waits, so it is reported together with the connection
    · have hne : s.datagrams ≠ [] := List.ne_nil_of_length_pos (by omega)
      have hle := (hahead.resolve_left (by omega)).2
      rw [hpc] at hle
      exact .inr ⟨.inr (by simpa [Pc.udpReady] using hne), hle⟩
    · exact .inl hle
  | selectUdp hpc hbacklog hdatagrams =>
    refine ⟨hwaiting, hahead.imp id fun ⟨_, hle⟩ => ⟨.inr rfl, ?_⟩⟩
    rw [hpc] at hle
    exact Nat.le_succ_of_le hle
  | accept hpc hbacklog =>
    rw [hpc] at hahead
    refine ⟨hwaiting, hahead.imp id fun ⟨hready, hle⟩ => ⟨.inr ?_, hle⟩⟩
    exact hready.resolve_left fun h => nomatch h
  | @tcp _ udpReady _ _ e hpc he hdatagram hbacklog =>
    have hanswered : answered (s.log ++ [e]) = answered s.log := by
      simp [answered_append, hdatagram]
    have htcp : tcpCalls (s.log ++ [e]) = tcpCalls s.log + 1 := by
      simp [tcpCalls_append, he]
    refine ⟨hwaiting.trans_eq (by rw [Server.afterTcp, hanswered]), ?_⟩
    rw [Server.afterTcp, hanswered, htcp]
    refine hahead.imp id fun ⟨hready, hle⟩ => ?_
    -- the datagram that was reported is next, and makes up for this call
    have hready : udpReady = true ∧
        tcpCalls s.log + answered s₀.log ≤ tcpCalls s₀.log + answered s.log := by
      rcases hpc with hpc | ⟨conn, hpc⟩
      · rw [hpc] at hready hle
        exact ⟨hready.resolve_left (fun h => nomatch h), hle⟩
      · rw [hpc] at hready hle
        exact ⟨hready.resolve_left (fun h => nomatch h), hle⟩
    obtain ⟨rfl, hle⟩ := hready
    refine ⟨.inr rfl, ?_⟩
    simp only [if_true, Pc.pending]
    omega
  | @recvfrom _ d datagrams time hpc hdatagrams =>
    rw [hdatagrams, List.length_cons] at hwaiting
    refine ⟨?_, ?_⟩
    · simp only [answered_append, Entry.datagram, Option.toList_some, List.length_singleton]
      omega
    · simp only [answered_append, tcpCalls_append, Entry.datagram, Entry.isUdp, if_true,
        Option.toList_some, List.length_singleton]
      refine hahead.imp (by omega) fun ⟨_, hle⟩ => ⟨.inl trivial, ?_⟩
      rw [hpc] at hle
      simp only [Pc.pending] at hle ⊢
      omega
  | recvfromFails hpc => exact absurd rfl hfails

theorem ConnectionsKeepUp.step (h : ConnectionsKeepUp s₀ s) (hstep : step s a = some t) :
    ConnectionsKeepUp s₀ t := by
  obtain ⟨hwaiting, hahead⟩ := h
  cases turn_of_step hstep with
  | wait hpc hlog hbacklog hdatagrams =>
    rw [← hlog, ← hpc] at hahead hwaiting
    exact ⟨hwaiting.trans (by omega), hahead⟩
  | selectTcp hpc hbacklog =>
    rw [hpc] at hwaiting hahead
    exact ⟨hwaiting, hahead⟩
  -- no connection waits, so all those of the start are done with
  | selectUdp hpc hbacklog hdatagrams =>
    rw [hpc, hbacklog] at hwaiting
    refine ⟨?_, .inl (by simpa [Pc.current] using hwaiting)⟩
    simpa [Pc.current, hbacklog] using hwaiting
  | accept hpc hbacklog =>
    rw [hpc] at hwaiting hahead
    rw [hbacklog, List.length_cons] at hwaiting
    refine ⟨?_, hahead⟩
    simp only [Pc.current, Option.toList_none, Option.toList_some, List.length_nil,
      List.length_singleton] at hwaiting ⊢
    omega
  | @tcp _ udpReady _ backlog e hpc he hdatagram hbacklog =>
    have hnone : (if udpReady then Pc.udp else .select).current = none := by
      cases udpReady <;> rfl
    have hpending := (if udpReady then Pc.udp else .select).pending_le_one
    rw [Server.afterTcp]
    refine ⟨?_, ?_⟩
    · simp only [served_append, hnone, Option.toList_none, List.length_nil]
      omega
    · simp only [served_append, udpCalls_append, tcpCalls_append, he, Bool.false_eq_true, if_false]
      exact hahead.imp (by omega) (by omega)
  | recvfrom hpc hdatagrams | recvfromFails hpc =>
    rw [hpc] at hwaiting hahead
    refine ⟨?_, ?_⟩
    · simp only [served_append]
      exact hwaiting
    · simp only [served_append, udpCalls_append, tcpCalls_append, Entry.isUdp, Entry.conn, if_true,
        Option.toList_none, List.length_nil]
      exact hahead.imp id (by simp only [Pc.pending]; omega)

/-- From any call of `select` on, connections and datagrams take turns. As long as one of the
datagrams waits that were there, `handle_tcp_client` is called at most once more than datagrams
are answered; as long as one of the connections is not done with that were there,
`handle_udp_client` is called no more often than `handle_tcp_client`. -/
theorem take_turns (hpc : s.pc = .select) (hrun : run step s as = some t) :
    (.recvfromFails ∉ as →
      answered s.log + s.datagrams.length ≤ answered t.log ∨
        tcpCalls t.log + answered s.log ≤ tcpCalls s.log + answered t.log + 1) ∧
    (served s.log + s.backlog.length ≤ served t.log ∨
      udpCalls t.log + tcpCalls s.log ≤ udpCalls s.log + tcpCalls t.log) := by
  constructor
  · intro hfails
    have hinit : DatagramsKeepUp s s := ⟨le_rfl, .inr ⟨.inl hpc, Nat.le_add_right _ _⟩⟩
    have halong : Along step (fun _ a => a ≠ .recvfromFails) s as :=
      Along.of_forall fun a ha _ heq => hfails (heq ▸ ha)
    have h : DatagramsKeepUp s t :=
      Along.run (fun _ _ _ h hcond hstep => h.step hcond hstep) hinit halong hrun
    refine h.ahead.imp id fun ⟨_, hle⟩ => ?_
    have hpending := t.pc.pending_le_one
    omega
  · have hinit : ConnectionsKeepUp s s := by
      refine ⟨?_, .inr ?_⟩
      · omega
      · rw [hpc]
        exact le_rfl
    have hkeeps : Preserved step (ConnectionsKeepUp s) := fun _ _ _ h hstep => h.step hstep
    exact (hkeeps.run hinit hrun).ahead.imp id (by omega)

/-- Two connections come while two datagrams wait. -/
def takeTurnsSteps : List Action :=
  [.select, .accept, .close 0, .read "12:00".toList, .recvfrom "12:00".toList, .select, .accept]

theorem take_turns_few : ∃ s t,
    run step .init [.connect ⟨1, 1⟩, .connect ⟨3, 3⟩, .sendDatagram ⟨2, 2⟩ "TIME".toList,
      .sendDatagram ⟨2, 2⟩ "TIME".toList] = some s ∧
    run step s takeTurnsSteps = some t ∧
    tcpCalls t.log + answered s.log ≤ tcpCalls s.log + answered t.log + 1 ∧
    udpCalls t.log + tcpCalls s.log ≤ udpCalls s.log + tcpCalls t.log := by
  refine ⟨_, _, rfl, rfl, ?_, ?_⟩
  · exact ((@take_turns _ _ takeTurnsSteps rfl rfl).1 (by decide)).resolve_left (by decide)
  · exact (@take_turns _ _ takeTurnsSteps rfl rfl).2.resolve_left (by decide)

/-! ### What the server waits for -/

/-- The client has not closed the connection, and nothing is there to be read. -/
def Silent (s : Server) (conn : ℕ) : Prop :=
  ∃ c, s.conns[conn]? = some c ∧ c.unread = [] ∧ c.closed = false

/-- None of the calls of the server returns, unless with an error. -/
def Blocked (s : Server) : Prop :=
  step s .select = none ∧ step s .accept = none ∧ (∀ time, step s (.read time) = none) ∧
    ∀ time, step s (.recvfrom time) = none

/-- The server waits for requests, or it waits for a client that it has accepted. -/
theorem blocked_iff (hrun : run step .init as = some s) :
    Blocked s ↔ (s.pc = .select ∧ s.backlog = [] ∧ s.datagrams = []) ∨
      ∃ conn udpReady, s.pc = .read conn udpReady ∧ Silent s conn := by
  have h : Sound s := Sound.preserved.run sound_init hrun
  have hreported := h.reported
  constructor
  · rintro ⟨hselect, haccept, hread, hrecvfrom⟩
    cases hpc : s.pc with
    | select =>
      simp only [step, hpc, Server.select] at hselect
      split at hselect
      · cases hselect
      · rename_i hbacklog
        split at hselect
        · cases hselect
        · rename_i hdatagrams
          exact .inl ⟨rfl, not_not.mp hbacklog, not_not.mp hdatagrams⟩
    | accept udpReady =>
      obtain ⟨conn, backlog, hbacklog⟩ := List.exists_cons_of_ne_nil (h.waiting _ hpc)
      simp only [step, hpc, hbacklog] at haccept
      cases haccept
    | read conn udpReady =>
      have hlt : conn < s.conns.length :=
        h.lt_length (by rw [hpc]; exact List.mem_cons_self)
      have hget : s.conns[conn]? = some s.conns[conn] := List.getElem?_eq_getElem hlt
      have hnone := hread []
      simp only [step, hpc, Server.read, hget] at hnone
      split at hnone
      · rename_i hsilent
        exact .inr ⟨conn, udpReady, rfl, _, hget, hsilent.1, by simpa using hsilent.2⟩
      · cases hnone
    | udp =>
      rw [hpc] at hreported
      obtain ⟨d, datagrams, hdatagrams⟩ := List.exists_cons_of_ne_nil (hreported rfl)
      have hnone := hrecvfrom []
      simp only [step, hpc, Server.recvfrom, hdatagrams] at hnone
      cases hnone
  · rintro (⟨hpc, hbacklog, hdatagrams⟩ | ⟨conn, udpReady, hpc, c, hc, hunread, hopen⟩)
    · simp [Blocked, step, hpc, Server.select, hbacklog, hdatagrams]
    · simp [Blocked, step, hpc, Server.read, hc, hunread, hopen]

/-- After a first connection the server waits for it, although a datagram is there. -/
def silentClient : List Action :=
  [.connect ⟨1, 1⟩, .sendDatagram ⟨2, 2⟩ "TIME".toList, .select, .accept]

theorem blocked_iff_silentClient : ∃ s, run step .init silentClient = some s ∧ Blocked s :=
  ⟨_, rfl, (@blocked_iff _ silentClient rfl).mpr
    (.inr ⟨0, true, rfl, _, rfl, rfl, rfl⟩)⟩

/-- The client does something with its connection, or the connection breaks. -/
def Action.Concerns (conn : ℕ) : Action → Prop
  | .send k _ | .close k => k = conn
  | .readFails => True
  | _ => False

instance (conn : ℕ) : DecidablePred (Action.Concerns conn)
  | .send k _ | .close k => inferInstanceAs (Decidable (k = conn))
  | .readFails => isTrue trivial
  | .connect _ | .sendDatagram _ _ | .select | .selectFails | .accept | .acceptFails _ | .read _
  | .recvfrom _ | .recvfromFails => isFalse id

/-- Whatever all other clients send, over either protocol, nobody is answered as long as the
client that was accepted stays silent. -/
theorem silent_blocks {udpReady : Bool} (hpc : s.pc = .read conn udpReady)
    (hsilent : Silent s conn) (hothers : ∀ a ∈ as, ¬ a.Concerns conn)
    (hrun : run step s as = some t) : t.log = s.log ∧ t.pc = s.pc := by
  have halong : Along step (fun _ a => ¬ a.Concerns conn) s as :=
    Along.of_forall fun a ha _ => hothers a ha
  have hkeeps : ∀ ⦃t : Server⦄ ⦃a : Action⦄ ⦃u : Server⦄,
      (Silent t conn ∧ t.log = s.log ∧ t.pc = s.pc) → ¬ a.Concerns conn → step t a = some u →
        Silent u conn ∧ u.log = s.log ∧ u.pc = s.pc := by
    rintro t a u ⟨⟨c, hc, hunread, hopen⟩, hlog, htpc⟩ hother hstep
    have hread := htpc.trans hpc
    have hlt := (List.getElem?_eq_some_iff.mp hc).1
    cases a with
    | connect client =>
      cases hstep
      exact ⟨⟨c, (List.getElem?_append_left hlt).trans hc, hunread, hopen⟩, hlog, htpc⟩
    | send k bytes =>
      simp only [step, Server.updateConn] at hstep
      split at hstep
      · split at hstep
        · cases hstep
        · cases hstep
          refine ⟨⟨c, ?_, hunread, hopen⟩, hlog, htpc⟩
          rw [List.getElem?_set_ne hother, hc]
      · cases hstep
    | close k =>
      simp only [step, Server.updateConn] at hstep
      split at hstep
      · split at hstep
        · cases hstep
        · cases hstep
          refine ⟨⟨c, ?_, hunread, hopen⟩, hlog, htpc⟩
          rw [List.getElem?_set_ne hother, hc]
      · cases hstep
    | sendDatagram client bytes =>
      cases hstep
      exact ⟨⟨c, hc, hunread, hopen⟩, hlog, htpc⟩
    | readFails => exact absurd trivial hother
    | read time =>
      simp [step, hread, Server.read, hc, hunread, hopen] at hstep
    | select | selectFails | accept | acceptFails _ | recvfrom _ | recvfromFails =>
      simp [step, hread] at hstep
  exact (halong.run hkeeps ⟨hsilent, rfl, rfl⟩ hrun).2

theorem silent_blocks_silentClient : ∃ s t, run step .init silentClient = some s ∧
    run step s [.connect ⟨3, 3⟩, .send 1 "TIME".toList, .sendDatagram ⟨4, 4⟩ []] = some t ∧
    t.log = s.log :=
  ⟨_, _, rfl, rfl, (@silent_blocks _ _ [.connect ⟨3, 3⟩, .send 1 "TIME".toList,
    .sendDatagram ⟨4, 4⟩ []] 0 true rfl ⟨_, rfl, rfl, rfl⟩ (by decide) rfl).1⟩

end UnixLessons.TimeServer

import UnixLessons.Echo.Clients

/-!
# Whom the echo client talks to

The client keeps the address of its server in a global. It is where messages and the
good-bye go, and it is also where `recvfrom` puts the address a datagram came from. So
whoever sends the client a datagram is its server from then on.

`step` runs the loop of one client against a network that may deliver any datagram from
any address at any time.

## Main result

* `loyal_iff`: a client talks to its server alone, also when it is interrupted, exactly if
  all datagrams it received came from there
-/

namespace UnixLessons.Echo

open Text Transition

/-- `127.0.0.1` in network byte order, and `SERVER_PORT`. -/
def serverEndpoint : Key := (0x0100007F, 10200)

/-- A client with its `server_addr`. The histories say what was sent where, and who made the
client believe that the server has shut down. -/
structure Caller where
  peer : Peer
  serverAddr : Key
  sentTo : List (Key × CString)
  disconnectedBy : Option Key

namespace Caller

/-- The client has started; what the user types is given. -/
def start (stdin : CString) : Caller where
  peer := ⟨.typing, stdin, [], [], [], []⟩
  serverAddr := serverEndpoint
  sentTo := []
  disconnectedBy := none

/-- The loop goes on, and what it sends goes to `server_addr`. -/
def goOn (c : Caller) (x : Peer) : Caller :=
  { c with
    peer := x
    sentTo := c.sentTo ++ (x.toServer.drop c.peer.toServer.length).map (c.serverAddr, ·) }

/-- `recvfrom` and what follows in the loop. -/
def receive (c : Caller) (source : Key) (payload : List Char) : Option Caller :=
  (Peer.receive { c.peer with toClient := [payload] }).map fun x =>
    { c with
      peer := x
      serverAddr := source
      disconnectedBy := if x.pc = .stopped then some source else none }

/-- What may happen to a client: it reads a line, a datagram arrives for it, `recvfrom` fails,
or a signal comes. -/
inductive Action where
  | type
  | receive (source : Key) (payload : List Char)
  | receiveFails
  | interrupt

def step (c : Caller) : Action → Option Caller
  | .type => if c.peer.pc = .typing then some (c.goOn c.peer.readMessage) else none
  | .receive source payload => if c.peer.pc = .blocked then c.receive source payload else none
  | .receiveFails =>
    if c.peer.pc = .blocked then some { c with peer := { c.peer with pc := .typing } } else none
  | .interrupt => if c.peer.pc = .stopped then none else some (c.goOn c.peer.signalHandler)

/-- All that was sent was sent to the server, and nobody else made the client stop. -/
def Loyal (c : Caller) : Prop :=
  (∀ x ∈ c.sentTo, x.1 = serverEndpoint) ∧ ∀ k ∈ c.disconnectedBy, k = serverEndpoint

/-- Also the good-bye that a signal makes the client send now is sent to the server. -/
def LoyalWhenInterrupted (c : Caller) : Prop :=
  c.Loyal ∧ ∀ c', c.step .interrupt = some c' → c'.Loyal

/-- A datagram that is received comes from the server. -/
def FromServer (_ : Caller) : Action → Prop
  | .receive source _ => source = serverEndpoint
  | _ => True

instance (c : Caller) : ∀ a, Decidable (FromServer c a)
  | .receive source _ => inferInstanceAs (Decidable (source = serverEndpoint))
  | .type | .receiveFails | .interrupt => isTrue trivial

variable {c c' : Caller} {source : Key} {payload : List Char} {a : Action}

theorem loyal_goOn (h : c.Loyal) (haddr : c.serverAddr = serverEndpoint) (x : Peer) :
    (c.goOn x).Loyal := by
  refine ⟨fun y hy => ?_, h.2⟩
  rcases List.mem_append.mp hy with hold | hnew
  · exact h.1 y hold
  · obtain ⟨text, -, rfl⟩ := List.mem_map.mp hnew
    exact haddr

/-- A signal sends the good-bye to whoever the client takes for its server. -/
theorem mem_sentTo_signalHandler (c : Caller) :
    (c.serverAddr, clientShutdown) ∈ (c.goOn c.peer.signalHandler).sentTo := by
  simp [goOn, Peer.signalHandler]

theorem receive_eq_some (h : c.receive source payload = some c') :
    c'.serverAddr = source ∧ c'.sentTo = c.sentTo ∧
      c'.disconnectedBy = if c'.peer.pc = .stopped then some source else none := by
  obtain ⟨x, -, rfl⟩ := Option.map_eq_some_iff.mp h
  exact ⟨rfl, rfl, rfl⟩

theorem step_loyal (h : c.serverAddr = serverEndpoint ∧ c.Loyal) (hfrom : FromServer c a)
    (hstep : c.step a = some c') : c'.serverAddr = serverEndpoint ∧ c'.Loyal := by
  obtain ⟨haddr, hloyal⟩ := h
  cases a with
  | type =>
    obtain ⟨-, hsome⟩ := Option.ite_none_right_eq_some.mp hstep
    cases hsome
    exact ⟨haddr, loyal_goOn hloyal haddr _⟩
  | receive _ payload =>
    obtain rfl := hfrom
    obtain ⟨-, hreceive⟩ := Option.ite_none_right_eq_some.mp hstep
    obtain ⟨haddr', hsent, hby⟩ := receive_eq_some hreceive
    refine ⟨haddr', hsent ▸ hloyal.1, fun k hk => ?_⟩
    rw [hby] at hk
    split at hk
    · exact (Option.mem_some_iff.mp hk).symm
    · cases hk
  | receiveFails =>
    obtain ⟨-, hsome⟩ := Option.ite_none_right_eq_some.mp hstep
    cases hsome
    exact ⟨haddr, hloyal⟩
  | interrupt =>
    obtain ⟨-, hsome⟩ := Option.ite_none_left_eq_some.mp hstep
    cases hsome
    exact ⟨haddr, loyal_goOn hloyal haddr _⟩

theorem loyalWhenInterrupted (h : c.serverAddr = serverEndpoint ∧ c.Loyal) :
    c.LoyalWhenInterrupted :=
  ⟨h.2, fun _ hstep => (step_loyal h (a := .interrupt) trivial hstep).2⟩

/-- After a datagram of somebody else the client has stopped because of it, or a signal makes
it say good-bye to the wrong one. -/
theorem not_loyal_of_foreign (hfrom : ¬ FromServer c a) (hstep : c.step a = some c') :
    ¬ c'.LoyalWhenInterrupted := by
  cases a with
  | receive source payload =>
    obtain ⟨-, hreceive⟩ := Option.ite_none_right_eq_some.mp hstep
    obtain ⟨haddr, -, hby⟩ := receive_eq_some hreceive
    rintro ⟨hloyal, hinterrupt⟩
    by_cases hstopped : c'.peer.pc = .stopped
    · rw [if_pos hstopped] at hby
      exact hfrom (hloyal.2 source hby)
    · have hsent := (hinterrupt _ (if_neg hstopped)).1 _ (mem_sentTo_signalHandler c')
      rw [haddr] at hsent
      exact hfrom hsent
  | type | receiveFails | interrupt => exact absurd trivial hfrom

/-- **The client and its server.** In a run of the client, interrupted anywhere, everything
is sent to the server and only the server can end the loop, exactly if all datagrams that
were received came from there. -/
theorem loyal_iff {stdin : CString} {acts : List Action}
    (hrun : run step (start stdin) acts = some c) :
    (∀ acts' c', acts' <+: acts → run step (start stdin) acts' = some c' →
      c'.LoyalWhenInterrupted) ↔
    Along step FromServer (start stdin) acts := by
  have hstart : (start stdin).serverAddr = serverEndpoint ∧ (start stdin).Loyal :=
    ⟨rfl, by simp [Loyal, start]⟩
  have hkeeps : ∀ ⦃c a c'⦄, c.serverAddr = serverEndpoint ∧ c.Loyal → FromServer c a →
      step c a = some c' → c'.serverAddr = serverEndpoint ∧ c'.Loyal :=
    fun c a c' h hfrom hstep => step_loyal h hfrom hstep
  refine forall_states_iff ?_ hkeeps ?_ hstart hrun
  · intro c h
    exact loyalWhenInterrupted h
  · intro c a c' _ hfrom hstep
    exact not_loyal_of_foreign hfrom hstep

/-- The user types one line, the server answers, and the client says good-bye. -/
theorem loyal_iff_answered :
    let acts : List Action := [.type, .receive serverEndpoint "hi 1".toList]
    ∃ c, run step (start "hi\n".toList) acts = some c ∧ c.LoyalWhenInterrupted := by
  intro acts
  obtain ⟨c, hrun⟩ : ∃ c, run step (start "hi\n".toList) acts = some c := ⟨_, rfl⟩
  exact ⟨c, hrun, (loyal_iff hrun).mpr (by decide) acts c List.prefix_rfl hrun⟩

/-- While the client waits, a datagram comes from another port of the same host; the next line
goes there. And a notice from there ends the client, though the server is running. -/
theorem not_loyal_foreign :
    (∃ c, run step (start "hi\nsecret\n".toList)
        [.type, .receive (serverEndpoint.1, 6666) "hello".toList, .type] = some c ∧
      c.sentTo = [(serverEndpoint, "hi".toList), ((serverEndpoint.1, 6666), "secret".toList)] ∧
      ¬ c.Loyal) ∧
    (∃ c, run step (start "hi\n".toList)
        [.type, .receive (serverEndpoint.1, 6666) serverShutdown] = some c ∧
      c.peer.pc = .stopped ∧ ¬ c.Loyal) := by
  refine ⟨⟨_, rfl, by decide, ?_⟩, ⟨_, rfl, by decide, ?_⟩⟩
  · rintro ⟨hsent, -⟩
    exact absurd (hsent ((serverEndpoint.1, 6666), "secret".toList) (by decide)) (by decide)
  · rintro ⟨-, hby⟩
    exact absurd (hby (serverEndpoint.1, 6666) (by decide)) (by decide)

end Caller

end UnixLessons.Echo

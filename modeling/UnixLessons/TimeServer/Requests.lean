import UnixLessons.Text.Lines

/-!
# The time server over TCP and UDP

One server answers over both protocols. Each handler makes one call to receive the request,
cuts it at its first newline and compares it with `TIME`. A datagram is received whole, but
what one `read` of a stream returns is whatever has arrived by then.

## Main result

* `accepts_iff`: the two handlers agree on a request exactly if the stream was not cut where
  it matters, which is within the keyword or right behind it
-/

namespace UnixLessons.TimeServer

open Text

/-- Size of the request buffers. -/
def bufferSize : ℕ := 1024

def keyword : CString := "TIME".toList

structure Address where
  ipAddr : UInt32
  port : UInt16
deriving DecidableEq

/-- What a handler prints, and what it sends to the client. -/
inductive Event where
  | acceptFailed
  | readFailed
  | closedByClient
  | connected (client : Address)
  | request (client : Address) (text : CString)
  | sent (text : CString)
  | timeSent (time : CString)
  | unknownCommand
  | connectionClosed
deriving DecidableEq

/-- The request in the buffer: what was received is terminated and cut at its first newline. -/
def requestText (bytes : List Char) : CString := removeNewline (cstr bytes)

/-- `handle_tcp_client`, with the outcomes of `accept` and `read`. A failed `accept` is noticed,
but only the `read` that must fail then ends the function. -/
def handleTcpClient (accepted : Option (Address × Option (List Char))) (time : CString) :
    List Event :=
  match accepted with
  | none => [.acceptFailed, .readFailed]
  | some (_, none) => [.readFailed]
  | some (_, some []) => [.closedByClient]
  | some (client, some bytes) =>
    [.connected client, .request client (requestText bytes)] ++
      (if requestText bytes = keyword then [.sent time, .timeSent time]
      else [.sent "ERROR: TIME\n".toList, .unknownCommand]) ++
      [.connectionClosed]

/-- `handle_udp_client`, with the outcome of `recvfrom`. -/
def handleUdpClient (received : Option (Address × List Char)) (time : CString) : List Event :=
  match received with
  | none => [.readFailed]
  | some (client, bytes) =>
    [.connected client, .request client (requestText bytes)] ++
      (if requestText bytes = keyword then [.sent time, .timeSent time]
      else [.sent "ERROR: Unknown command. Use TIME\n".toList, .unknownCommand]) ++
      [.connectionClosed]

/-- What `read` returns when the first `arrived` segments of a stream are there. -/
def readStream (segments : List (List Char)) (arrived : ℕ) : List Char :=
  (segments.take arrived).flatten.take (bufferSize - 1)

/-- What `recvfrom` returns of a datagram. -/
def readDatagram (bytes : List Char) : List Char := bytes.take (bufferSize - 1)

variable {bytes request rest : List Char} {client : Address} {time : CString}
  {segments : List (List Char)} {arrived n : ℕ}

theorem timeSent_mem_tcp (hbytes : bytes ≠ []) :
    Event.timeSent time ∈ handleTcpClient (some (client, some bytes)) time ↔
      requestText bytes = keyword := by
  cases bytes with
  | nil => exact absurd rfl hbytes
  | cons c bytes =>
    rw [handleTcpClient]
    split <;> simp [*]
    · exact List.cons_ne_nil c bytes

theorem timeSent_mem_udp :
    Event.timeSent time ∈ handleUdpClient (some (client, bytes)) time ↔
      requestText bytes = keyword := by
  rw [handleUdpClient]
  split <;> simp_all

/-! ### Requests -/

/-- The keyword is not followed by more of a word. -/
def EndsWord (rest : List Char) : Prop := ∀ c ∈ rest.head?, c = '\n' ∨ c = nul

instance : DecidablePred EndsWord := fun rest => Option.decidableForallMem rest.head?

theorem requestText_eq (bytes : List Char) :
    requestText bytes = bytes.takeWhile fun c => c ≠ '\n' ∧ c ≠ nul := by
  rw [requestText, removeNewline, cstr, List.takeWhile_takeWhile]
  congr 1
  ext c
  simp

/-- A request is accepted if it is the keyword, or starts with it and a newline or a terminator
follows. -/
theorem requestText_eq_keyword_iff :
    requestText bytes = keyword ↔ ∃ rest, bytes = keyword ++ rest ∧ EndsWord rest := by
  rw [requestText_eq]
  constructor
  · intro htext
    refine ⟨bytes.dropWhile fun c => c ≠ '\n' ∧ c ≠ nul, ?_, ?_⟩
    · rw [← htext, List.takeWhile_append_dropWhile]
    · intro c hc
      have hstop := List.head?_dropWhile_not (fun c => decide (c ≠ '\n' ∧ c ≠ nul)) bytes
      rw [hc] at hstop
      simpa [or_iff_not_imp_left] using hstop
  · rintro ⟨rest, rfl, hend⟩
    rw [List.takeWhile_append_of_pos (by simp [keyword, nul])]
    -- The text ends at the keyword, with the request or at what ends the word.
    cases rest with
    | nil => simp
    | cons c rest =>
      have hc : ¬ (c ≠ '\n' ∧ c ≠ nul) := by
        rw [not_and_or, not_not, not_not]
        exact hend c rfl
      rw [List.takeWhile_cons_of_neg (by simpa using hc), List.append_nil]

/-- The first `n` bytes show whether the request is accepted: if it is, they hold the whole
keyword, and if it starts with the keyword but is not, they hold not only the keyword. -/
def ShowsKeyword (request : List Char) (n : ℕ) : Prop :=
  ∀ rest, request = keyword ++ rest →
    if EndsWord rest then keyword.length ≤ n else n ≠ keyword.length

theorem endsWord_take_iff (hn : n ≠ 0) : EndsWord (rest.take n) ↔ EndsWord rest := by
  obtain ⟨k, rfl⟩ := Nat.exists_eq_succ_of_ne_zero hn
  cases rest with
  | nil => rfl
  | cons c rest => rfl

/-- A request and its first `n` bytes are both accepted or both refused. -/
theorem take_accepted_iff :
    (requestText (request.take n) = keyword ↔ requestText request = keyword) ↔
      ShowsKeyword request n := by
  rw [requestText_eq_keyword_iff, requestText_eq_keyword_iff]
  by_cases hstarts : ∃ rest, request = keyword ++ rest
  · obtain ⟨rest, rfl⟩ := hstarts
    have hwhole : (∃ rest', keyword ++ rest = keyword ++ rest' ∧ EndsWord rest') ↔
        EndsWord rest := by
      simp
    have hshows : ShowsKeyword (keyword ++ rest) n ↔
        if EndsWord rest then keyword.length ≤ n else n ≠ keyword.length := by
      simp [ShowsKeyword]
    rw [hwhole, hshows]
    by_cases hn : keyword.length ≤ n
    · obtain ⟨k, rfl⟩ := Nat.exists_eq_add_of_le hn
      have hfirst : (∃ rest', (keyword ++ rest).take (keyword.length + k) = keyword ++ rest' ∧
          EndsWord rest') ↔ EndsWord (rest.take k) := by
        rw [List.take_length_add_append]
        simp
      rw [hfirst]
      rcases eq_or_ne k 0 with rfl | hk
      -- The keyword alone is accepted, so the rest of the request must be too.
      · have hnil : EndsWord ([] : List Char) := by simp [EndsWord]
        simp [hnil]
      · rw [endsWord_take_iff hk]
        simp [hk]
    · have hshort : ¬ ∃ rest', (keyword ++ rest).take n = keyword ++ rest' ∧ EndsWord rest' := by
        rintro ⟨rest', heq, -⟩
        have hlength := congrArg List.length heq
        rw [List.length_take, List.length_append, List.length_append] at hlength
        omega
      have hne : n ≠ keyword.length := by omega
      simp [hshort, hn, hne]
  -- A request that does not start with the keyword has no such beginning either.
  · have hfirst : ¬ ∃ rest, request.take n = keyword ++ rest ∧ EndsWord rest := by
      rintro ⟨rest, heq, -⟩
      refine hstarts ⟨rest ++ request.drop n, ?_⟩
      rw [← List.append_assoc, ← heq, List.take_append_drop]
    have hwhole : ¬ ∃ rest, request = keyword ++ rest ∧ EndsWord rest :=
      fun ⟨rest, heq, _⟩ => hstarts ⟨rest, heq⟩
    have hshows : ShowsKeyword request n := fun rest heq => absurd ⟨rest, heq⟩ hstarts
    exact iff_of_true (iff_of_false hfirst hwhole) hshows

/-! ### The two handlers -/

/-- What is read of a stream is a beginning of what was sent. -/
theorem readStream_eq_take (hjoin : segments.flatten = request) :
    readStream segments arrived = request.take (readStream segments arrived).length := by
  have hprefix : readStream segments arrived <+: request := by
    rw [← hjoin, ← List.take_append_drop arrived segments, List.flatten_append]
    refine (List.take_prefix _ _).trans ?_
    rw [List.take_append_drop]
    exact List.prefix_append _ _
  exact List.prefix_iff_eq_take.mp hprefix

/-- Something is read as soon as a segment has arrived. -/
theorem readStream_ne_nil (hsegments : ∀ segment ∈ segments, segment ≠ [])
    (hrequest : segments ≠ []) (harrived : arrived ≠ 0) : readStream segments arrived ≠ [] := by
  obtain ⟨k, rfl⟩ := Nat.exists_eq_succ_of_ne_zero harrived
  cases segments with
  | nil => exact absurd rfl hrequest
  | cons segment segments =>
    have hsegment : segment ≠ [] := hsegments segment List.mem_cons_self
    intro hread
    rw [readStream, List.take_succ_cons, List.flatten_cons, List.take_eq_nil_iff] at hread
    rcases hread with hzero | hnil
    · exact absurd hzero (by decide)
    · exact hsegment (List.append_eq_nil_iff.mp hnil).1

/-- The answers over TCP and UDP to a request agree exactly if the bytes that are there at the
call of `read` show whether the request is accepted. -/
theorem accepts_iff (segments : List (List Char)) (arrived : ℕ) (tcp udp : Address)
    (time : CString) (hsegments : ∀ segment ∈ segments, segment ≠ [])
    (hrequest : segments.flatten ≠ []) (hlength : segments.flatten.length ≤ bufferSize - 1)
    (harrived : arrived ≠ 0) :
    (Event.timeSent time ∈
        handleTcpClient (some (tcp, some (readStream segments arrived))) time ↔
      Event.timeSent time ∈
        handleUdpClient (some (udp, readDatagram segments.flatten)) time) ↔
    ShowsKeyword segments.flatten (readStream segments arrived).length := by
  have hne : segments ≠ [] := fun hnil => hrequest (by rw [hnil]; rfl)
  -- A datagram of this length is received whole.
  have hdatagram : readDatagram segments.flatten = segments.flatten :=
    List.take_of_length_le hlength
  have htake : (requestText (segments.flatten.take (readStream segments arrived).length) =
      keyword ↔ requestText segments.flatten = keyword) ↔
      ShowsKeyword segments.flatten (readStream segments arrived).length :=
    take_accepted_iff
  rw [← readStream_eq_take rfl] at htake
  rw [timeSent_mem_tcp (readStream_ne_nil hsegments hne harrived), timeSent_mem_udp, hdatagram]
  exact htake

def localClient : Address := ⟨0x7F000001, 40000⟩

/-- `TIME` in one segment and its newline in another are accepted on both ways. -/
theorem accepts_iff_newline :
    Event.timeSent "12:00".toList ∈
        handleTcpClient (some (localClient,
          some (readStream ["TIME".toList, "\n".toList] 1))) "12:00".toList ↔
      Event.timeSent "12:00".toList ∈
        handleUdpClient (some (localClient, readDatagram "TIME\n".toList)) "12:00".toList :=
  (accepts_iff ["TIME".toList, "\n".toList] 1 localClient localClient "12:00".toList (by decide)
    (by decide) (by decide) (by decide)).mpr (by
      intro rest hrest
      obtain rfl : "\n".toList = rest := List.append_cancel_left hrest
      decide)

/-- A stream cut within the keyword is refused, and one cut behind it is accepted although the
word goes on. Both requests are judged the other way as a datagram. -/
theorem not_accepts_iff_cut :
    (Event.timeSent "12:00".toList ∉
        handleTcpClient (some (localClient,
          some (readStream ["TI".toList, "ME".toList] 1))) "12:00".toList ∧
      Event.timeSent "12:00".toList ∈
        handleUdpClient (some (localClient, readDatagram "TIME".toList)) "12:00".toList) ∧
    (Event.timeSent "12:00".toList ∈
        handleTcpClient (some (localClient,
          some (readStream ["TIME".toList, "R".toList] 1))) "12:00".toList ∧
      Event.timeSent "12:00".toList ∉
        handleUdpClient (some (localClient, readDatagram "TIMER".toList)) "12:00".toList) := by
  decide

end UnixLessons.TimeServer

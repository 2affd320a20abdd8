import UnixLessons.Echo.CounterMap

/-!
# The two buffers of the echo server

The receive buffer is zeroed before each datagram, which terminates what is received
unless the datagram fills it. The reply is formatted into a buffer of the same size,
although it is longer than the message by a space and a number. And the server compares
strings, so what follows a terminator does not count when it looks for a good-bye.

## Main results

* `serve_reply`: one round of the loop for a client whose number is known
* `complete_iff`: which datagrams are read within the buffer and answered in full
-/

namespace UnixLessons.Echo

open Text Arrays

variable {h : History} {d : Datagram} {n : Int32}

/-- The number of the sender's next message; a new client starts with 1, and there is
none when the history is full. -/
def nextNumber (h : History) (d : Datagram) : Option Int32 :=
  match findClient d.ipAddr d.port h with
  | some i => h.client[i]?.map Client.number
  | none => if h.count ≥ maxHistory then none else some 1

/-- What should be sent back. -/
def fullReply (d : Datagram) (n : Int32) : CString :=
  cstr d.payload ++ ' ' :: decimal n.toInt

/-- All string functions stay inside the receive buffer, and any payload but a good-bye is
sent back up to its terminator, with its number. -/
structure Complete (h : History) (d : Datagram) (n : Int32) : Prop where
  inBounds : stringIn (received bufferSize d.payload) ≠ none
  answered : d.payload ≠ clientShutdown →
    ∃ h', serve h d = some (h', some (fullReply d n))

theorem nul_mem_received_iff {size : ℕ} {bytes : List Char} (hlength : bytes.length ≤ size) :
    nul ∈ received size bytes ↔ bytes.length < size ∨ nul ∈ bytes := by
  rw [received, List.take_of_length_le hlength, List.rightpad, List.mem_append,
    List.mem_replicate]
  constructor
  · rintro (hmem | ⟨hpad, -⟩)
    · exact .inr hmem
    · exact .inl (by omega)
  · rintro (hlt | hmem)
    · exact .inr ⟨by omega, rfl⟩
    · exact .inl hmem

/-- The string read from the buffer is the payload up to its terminator. -/
theorem stringIn_received_eq (hlength : d.payload.length ≤ bufferSize) :
    stringIn (received bufferSize d.payload) =
      if d.payload.length < bufferSize ∨ nul ∈ d.payload then some (cstr d.payload) else none := by
  split
  · rename_i hend
    rcases hlength.lt_or_eq with hlt | heq
    · exact stringIn_received hlt
    · have hbuffer : received bufferSize d.payload = d.payload := by
        rw [received, List.take_of_length_le hlength, List.rightpad, heq, Nat.sub_self,
          List.replicate_zero, List.append_nil]
      rw [hbuffer, stringIn, if_pos (hend.resolve_left heq.ge.not_gt)]
  · rename_i hend
    rw [stringIn, if_neg fun hmem => hend ((nul_mem_received_iff hlength).mp hmem)]

/-- One round of the loop: the reply is the message with its number, as far as it fits. -/
theorem serve_reply (hnumber : nextNumber h d = some n)
    (hstring : stringIn (received bufferSize d.payload) = some (cstr d.payload))
    (hbye : cstr d.payload ≠ clientShutdown) :
    ∃ h', serve h d = some (h', some (snprintf bufferSize (fullReply d n))) := by
  unfold nextNumber at hnumber
  rw [serve, hstring]
  simp only [if_neg hbye]
  cases hfind : findClient d.ipAddr d.port h with
  | some i =>
    rw [hfind] at hnumber
    obtain ⟨c, hc, rfl⟩ := Option.map_eq_some_iff.mp hnumber
    simp only [reply, hc]
    exact ⟨_, rfl⟩
  | none =>
    simp only [hfind] at hnumber
    split at hnumber
    · cases hnumber
    · rename_i hroom
      obtain rfl := Option.some.inj hnumber
      have hlt : h.count < maxHistory := not_le.mp hroom
      simp only [addClient, if_neg hroom, reply]
      rw [Vector.getElem?_setIfInBounds, if_pos rfl, if_pos hlt]
      exact ⟨_, rfl⟩

namespace Complete

theorem terminated (h' : Complete h d n) (hlength : d.payload.length ≤ bufferSize) :
    d.payload.length < bufferSize ∨ nul ∈ d.payload := by
  by_contra hnot
  have hbounds := h'.inBounds
  rw [stringIn_received_eq hlength, if_neg hnot] at hbounds
  exact hbounds rfl

theorem fits (h' : Complete h d n) (hlength : d.payload.length ≤ bufferSize)
    (hnumber : nextNumber h d = some n) (hpayload : d.payload ≠ clientShutdown) :
    cstr d.payload ≠ clientShutdown ∧ (fullReply d n).length < bufferSize := by
  have hstring := stringIn_received_eq hlength
  rw [if_pos (h'.terminated hlength)] at hstring
  obtain ⟨h₁, hserve⟩ := h'.answered hpayload
  have hbye : cstr d.payload ≠ clientShutdown := by
    intro hbye
    rw [serve, hstring] at hserve
    simp [hbye] at hserve
  refine ⟨hbye, ?_⟩
  obtain ⟨h₂, hreply⟩ := serve_reply hnumber hstring hbye
  rw [hreply] at hserve
  simp only [Option.some.injEq, Prod.mk.injEq] at hserve
  exact (snprintf_eq_self_iff (by decide)).mp hserve.2

end Complete

/-- **Which datagrams are handled in full.** The string functions stay in the buffer
exactly if the datagram is terminated in it. A payload that is not the good-bye is answered
in full exactly if its text is not the good-bye either, and text and number leave room for a
terminator in the reply buffer. -/
theorem complete_iff (hlength : d.payload.length ≤ bufferSize)
    (hnumber : nextNumber h d = some n) :
    Complete h d n ↔
      (d.payload.length < bufferSize ∨ nul ∈ d.payload) ∧
        (d.payload = clientShutdown ∨
          cstr d.payload ≠ clientShutdown ∧ (fullReply d n).length < bufferSize) := by
  constructor
  · intro hcomplete
    exact ⟨hcomplete.terminated hlength,
      or_iff_not_imp_left.mpr (hcomplete.fits hlength hnumber)⟩
  · rintro ⟨hend, hfull⟩
    have hstring := stringIn_received_eq hlength
    rw [if_pos hend] at hstring
    refine ⟨by rw [hstring]; simp, fun hpayload => ?_⟩
    obtain ⟨hbye, hfits⟩ := hfull.resolve_left hpayload
    obtain ⟨h', hreply⟩ := serve_reply hnumber hstring hbye
    rw [snprintf_eq_self hfits] at hreply
    exact ⟨h', hreply⟩

/-- The first message of a client. -/
theorem complete_iff_hello : Complete .zero ⟨0, 1, "hello".toList⟩ 1 :=
  (complete_iff (by decide) (by decide)).mpr ⟨by decide, .inr ⟨by decide, by decide⟩⟩

/-- A datagram that fills the receive buffer is read over its end, one that is shorter by a
byte is sent back without its number, and a good-bye that is followed by a terminator and
another byte is not sent back at all. -/
theorem not_complete_limits :
    ¬ Complete .zero ⟨0, 1, List.replicate bufferSize 'a'⟩ 1 ∧
    ¬ Complete .zero ⟨0, 1, List.replicate (bufferSize - 1) 'a'⟩ 1 ∧
    ¬ Complete .zero ⟨0, 1, clientShutdown ++ [nul, '!']⟩ 1 := by
  have hnul : ∀ k, nul ∉ List.replicate k 'a' := fun k hmem =>
    absurd (List.eq_of_mem_replicate hmem) (by decide)
  have hlength : ∀ k, (List.replicate k 'a').length = k := fun _ => List.length_replicate
  refine ⟨fun h => ?_, fun h => ?_, fun h => ?_⟩
  · rcases h.terminated (hlength _).le with hlt | hmem
    · exact absurd hlt (hlength _).not_lt
    · exact hnul _ hmem
  · have hne : List.replicate (bufferSize - 1) 'a' ≠ clientShutdown := by
      intro heq
      have hsize := (hlength _).symm.trans (congrArg List.length heq)
      exact absurd hsize (by decide)
    obtain ⟨-, hfits⟩ := h.fits ((hlength _).trans_le (Nat.sub_le _ _)) rfl hne
    rw [fullReply, cstr_of_notMem (hnul _), List.length_append, hlength, List.length_cons] at hfits
    have : 0 < bufferSize := by decide
    omega
  · obtain ⟨hbye, -⟩ := h.fits (by decide) rfl (by decide)
    exact hbye (by decide)

end UnixLessons.Echo

import Mathlib.Algebra.Group.Nat.Even
import UnixLessons.RawSockets.Readers

/-!
# Well-formed packets and their readers

A packet with IP options, with whatever was in the buffer before it came: the sniffer prints
its addresses, ports and length, and a client that waits for an answer takes the first packet
that comes from the right port, and to its own where it looks at that. Packets before it,
longer ones and its own among them, leave no trace in what is printed. Of a packet that is
too long for its buffer a client gets the headers and the beginning of the payload.

## Main results

* `sniffs_fields`: what the sniffer prints of a packet
* `takes_first_reply`: what a client prints
* `sent_packet`: the frame that a client builds itself is well formed
-/

namespace UnixLessons.RawSockets

/-! ### Bytes in a buffer -/

/-- These bytes are in the buffer at this offset. -/
def Stores (buffer : Buffer) (offset : ℕ) (bytes : List UInt8) : Prop :=
  ∀ i b, bytes[i]? = some b → buffer (offset + i) = b

variable {buffer : Buffer} {offset ip : ℕ} {xs ys : List UInt8} {b : UInt8}

@[simp] theorem stores_nil : Stores buffer offset [] := by simp [Stores]

@[simp] theorem stores_cons :
    Stores buffer offset (b :: xs) ↔ buffer offset = b ∧ Stores buffer (offset + 1) xs := by
  constructor
  · intro h
    refine ⟨h 0 b rfl, fun i c hc => ?_⟩
    rw [Nat.add_right_comm]
    exact h (i + 1) c hc
  · rintro ⟨hb, hxs⟩ i c hc
    cases i with
    | zero => exact hb.trans (Option.some.inj hc)
    | succ i =>
      rw [Nat.add_comm i, ← Nat.add_assoc]
      exact hxs i c hc

@[simp] theorem stores_append : Stores buffer offset (xs ++ ys) ↔
    Stores buffer offset xs ∧ Stores buffer (offset + xs.length) ys := by
  induction xs generalizing offset with
  | nil => simp
  | cons b xs ih =>
    rw [List.cons_append, stores_cons, stores_cons, ih, List.length_cons, and_assoc,
      Nat.add_assoc, Nat.add_comm 1]

theorem Stores.of_initial (h : Stores buffer offset ys) (hinitial : xs <+: ys) :
    Stores buffer offset xs := by
  obtain ⟨zs, rfl⟩ := hinitial
  exact (stores_append.mp h).1

/-- What was received is in the buffer. -/
theorem stores_recvfrom (size : ℕ) (packet : List UInt8) (buffer : Buffer) :
    Stores (recvfrom size packet buffer) 0 (packet.take size) := by
  intro i b hb
  rw [recvfrom, Nat.zero_add, List.getD_eq_getElem?_getD, hb]
  rfl

@[simp] theorem length_bytes16 (x : UInt16) : (bytes16 x).length = 2 := rfl

@[simp] theorem length_bytes32 (x : UInt32) : (bytes32 x).length = 4 := rfl

theorem toUInt8_htons (x : UInt16) : (htons x).toUInt8 = (x >>> 8).toUInt8 := by
  rw [← UInt8.toBitVec_inj]
  ext i hi
  simp [htons]

theorem shift_htons (x : UInt16) : (htons x >>> 8).toUInt8 = x.toUInt8 := by
  rw [← UInt8.toBitVec_inj]
  ext i hi
  have hhigh : x.toBitVec.getLsbD (8 + (8 + i)) = false := BitVec.getLsbD_of_ge _ _ (by omega)
  have hlow : 8 + i < 16 := by omega
  have hnot : ¬ 8 + i < 8 := by omega
  simp [htons, hhigh, hlow, hnot, BitVec.getLsbD_eq_getElem (show i < 16 by omega)]

/-- A number in network byte order is read back. -/
theorem port_eq {x : UInt16} (h : Stores buffer offset (bytes16 (htons x))) :
    port buffer offset = x.toNat := by
  rw [bytes16, toUInt8_htons, shift_htons, stores_cons, stores_cons] at h
  have hlt := x.toNat_lt
  rw [port, h.1, h.2.1, UInt16.toNat_toUInt8, UInt16.toNat_toUInt8, UInt16.toNat_shiftRight]
  simp [Nat.shiftRight_eq_div_pow]
  omega

/-- So is an address. -/
theorem address_eq {a : UInt32} (h : Stores buffer offset (bytes32 a)) :
    (address buffer offset).value = bytes32 a := by
  rw [bytes32, stores_cons, stores_cons, stores_cons, stores_cons] at h
  obtain ⟨h₀, h₁, h₂, h₃, -⟩ := h
  rw [bytes32, ← h₀, ← h₁, ← h₂, ← h₃]
  rfl

/-! ### Packets -/

/-- A UDP packet with its IP header. The options come in words of four bytes, and there is
room for the length of the whole packet in its field. -/
structure Packet where
  tos : UInt8
  id : UInt16
  fragOff : UInt16
  ttl : UInt8
  check : UInt16
  saddr : UInt32
  daddr : UInt32
  options : List UInt8
  source : UInt16
  dest : UInt16
  udpCheck : UInt16
  payload : List UInt8
  options_dvd : 4 ∣ options.length
  options_le : options.length ≤ 40
  length_lt : 28 + options.length + payload.length < 65536

namespace Packet

/-- The field `ihl`: words of the header. -/
def ihl (p : Packet) : ℕ := 5 + p.options.length / 4

/-- Length of the datagram. -/
def len (p : Packet) : ℕ := 8 + p.payload.length

def udphdr (p : Packet) : Udphdr :=
  ⟨htons p.source, htons p.dest, htons (UInt16.ofNat p.len), p.udpCheck⟩

/-- The headers of IP and UDP. -/
def headers (p : Packet) : List UInt8 :=
  [0x40 + UInt8.ofNat p.ihl, p.tos] ++
    (bytes16 (htons (UInt16.ofNat (p.ihl * 4 + p.len))) ++ (bytes16 (htons p.id) ++
      (bytes16 (htons p.fragOff) ++ ([p.ttl, ipprotoUdp] ++ (bytes16 p.check ++
        (bytes32 p.saddr ++ (bytes32 p.daddr ++ (p.options ++ p.udphdr.bytes))))))))

def bytes (p : Packet) : List UInt8 := p.headers ++ p.payload

end Packet

variable {p : Packet}

/-- The fields of a packet where the readers look for them. -/
structure Carries (buffer : Buffer) (ip : ℕ) (p : Packet) : Prop where
  headerLen : headerLen buffer ip = p.ihl * 4
  protocol : buffer (ip + 9) = ipprotoUdp
  id : port buffer (ip + 4) = p.id.toNat
  saddr : (address buffer (ip + 12)).value = bytes32 p.saddr
  daddr : (address buffer (ip + 16)).value = bytes32 p.daddr
  source : port buffer (ip + p.ihl * 4) = p.source.toNat
  dest : port buffer (ip + p.ihl * 4 + 2) = p.dest.toNat
  len : port buffer (ip + p.ihl * 4 + 4) = p.len

theorem ihl_mul_four (p : Packet) : p.ihl * 4 = 20 + p.options.length := by
  obtain ⟨k, hk⟩ := p.options_dvd
  rw [Packet.ihl]
  omega

theorem length_headers (p : Packet) : p.headers.length = p.ihl * 4 + 8 := by
  rw [ihl_mul_four]
  simp only [Packet.headers, Udphdr.bytes, List.length_append, List.length_cons, List.length_nil,
    length_bytes16, length_bytes32]
  omega

/-- The headers of a packet are found in the buffer they were received into. -/
theorem carries_of_stores (h : Stores buffer ip p.headers) : Carries buffer ip p := by
  have hihl := ihl_mul_four p
  have hle := p.options_le
  have hlen : p.len < 65536 := by
    have hlt := p.length_lt
    rw [Packet.len]
    omega
  simp only [Packet.headers, Udphdr.bytes, Packet.udphdr, stores_append, List.append_assoc] at h
  obtain ⟨hfirst, -, hid, -, hproto, -, hsaddr, hdaddr, -, hsource, hdest, hudpLen, -⟩ := h
  simp only [length_bytes16, length_bytes32, List.length_cons, List.length_nil, Nat.zero_add,
    Nat.add_assoc, Nat.reduceAdd] at hid hproto hsaddr hdaddr hsource hdest hudpLen
  rw [stores_cons] at hfirst
  simp only [stores_cons, stores_nil, and_true] at hproto
  constructor
  · have hsmall : p.ihl ≤ 15 := by
      rw [Packet.ihl]
      omega
    rw [RawSockets.headerLen, hfirst.1, UInt8.toNat_add, UInt8.toNat_ofNat']
    have hconst : (0x40 : UInt8).toNat = 64 := rfl
    rw [hconst]
    omega
  · exact hproto.2
  · exact port_eq hid
  · exact address_eq hsaddr
  · exact address_eq hdaddr
  · rw [hihl]
    exact port_eq hsource
  · rw [hihl, Nat.add_assoc, Nat.add_assoc]
    exact port_eq hdest
  · rw [hihl, Nat.add_assoc, Nat.add_assoc]
    have hport := port_eq hudpLen
    rwa [UInt16.toNat_ofNat', Nat.mod_eq_of_lt hlen] at hport

/-! ### The sniffer -/

/-- The addresses, the ports and the length of the datagram. -/
def Packet.sniffed (p : Packet) : Sniffed :=
  { source := bytes32 p.saddr, dest := bytes32 p.daddr, sourcePort := p.source.toNat,
    destPort := p.dest.toNat, udpLength := p.len }

theorem processPacket_value (h : Carries buffer 0 p) :
    (processPacket buffer).value = some p.sniffed := by
  obtain ⟨hheader, hproto, -, hsaddr, hdaddr, hsource, hdest, hlen⟩ := h
  simp only [Nat.zero_add] at hproto hsaddr hdaddr hsource hdest hlen
  simp only [processPacket, Reading.bind_value, byte_value, hproto, if_true, ihl_value, hheader,
    hsaddr, hdaddr, ntohs_value, hsource, hdest, hlen, Reading.pure_value, Packet.sniffed]

/-- Whatever was in its buffer, the sniffer prints the fields of the packet. -/
theorem sniffs_fields (p : Packet) (buffer : Buffer) :
    (processPacket (recvfrom Reader.sniffer.size p.bytes buffer)).value = some p.sniffed := by
  have hstores := stores_recvfrom Reader.sniffer.size p.bytes buffer
  have hlength : p.bytes.length ≤ Reader.sniffer.size := by
    have hihl := ihl_mul_four p
    have hlt := p.length_lt
    rw [Packet.bytes, List.length_append, length_headers, Reader.size]
    omega
  rw [List.take_of_length_le hlength] at hstores
  exact processPacket_value (carries_of_stores (hstores.of_initial (List.prefix_append _ _)))

/-! ### The clients -/

/-- A packet on its way, with the addresses of an Ethernet frame. -/
structure Arrival where
  macs : List UInt8
  packet : Packet
  length_macs : macs.length = 12

/-- The client with the Ethernet socket gets the whole frame, the others the IP packet. -/
def Reader.bytes : Reader → Arrival → List UInt8
  | .packet, a => a.macs ++ (bytes16 (htons (UInt16.ofNat ethPIp)) ++ a.packet.bytes)
  | _, a => a.packet.bytes

/-- The packet a client waits for: two of them look at both ports, one at the source only. -/
def Reader.Awaits : Reader → Packet → Prop
  | .sniffer, _ => False
  | .packet, p => p.source.toNat = serverPort ∧ p.dest.toNat = 8888
  | .ipUdp, p => p.source.toNat = serverPort ∧ p.dest.toNat = 888
  | .udp, p => p.source.toNat = serverPort

instance : ∀ (reader : Reader) (p : Packet), Decidable (reader.Awaits p)
  | .sniffer, _ => inferInstanceAs (Decidable False)
  | .packet, _ | .ipUdp, _ => inferInstanceAs (Decidable (_ ∧ _))
  | .udp, p => inferInstanceAs (Decidable (p.source.toNat = serverPort))

/-- The loop of a client: what it accepts, and its buffer then. -/
def receiveLoop (reader : Reader) : Buffer → List (List UInt8) → Option (Accepted × Buffer)
  | _, [] => none
  | buffer, packet :: packets =>
    let received := recvfrom reader.size packet buffer
    match (reader.receive received).value with
    | some accepted => some (accepted, received)
    | none => receiveLoop reader received packets

/-- Where the IP header is in what the client receives. -/
def Reader.ipAt : Reader → ℕ
  | .packet => 14
  | .sniffer | .ipUdp | .udp => 0

/-- As much of the payload as there is room for in the buffer. -/
def Reader.received (reader : Reader) (p : Packet) : List UInt8 :=
  p.payload.take (reader.size - (reader.ipAt + p.ihl * 4 + 8))

/-- The text of a payload is the payload up to a NUL in it. -/
def Packet.text (p : Packet) : List UInt8 := p.payload.takeWhile (· ≠ 0)

/-- The whole payload has been received, or at least a NUL of it. -/
def Reader.GetsText (reader : Reader) (p : Packet) : Prop :=
  reader.received p = p.payload ∨ 0 ∈ reader.received p

/-- What a client prints of the IP header; one of them does not. -/
def Reader.ipFields : Reader → Packet → Option IpFields
  | .udp, _ => none
  | .sniffer, p | .packet, p | .ipUdp, p => some ⟨bytes32 p.saddr, bytes32 p.daddr, p.id.toNat⟩

/-- What a client prints of the packet it has accepted. If the text has been cut off it prints
what there is of it, and then reads on behind its buffer. -/
structure Shows (reader : Reader) (accepted : Accepted) (buffer : Buffer) (p : Packet) : Prop where
  source : accepted.source = p.source.toNat
  dest : accepted.dest = p.dest.toNat
  length : accepted.length = p.payload.length
  payload : Stores buffer accepted.data (reader.received p)
  text : reader.GetsText p → Stores buffer accepted.data p.text ∧
    ∀ i, Printed buffer accepted.data accepted.length i ↔ i < p.text.length
  overruns : ¬ reader.GetsText p →
    (∀ i < (reader.received p).length, Printed buffer accepted.data accepted.length i) ∧
      accepted.data + (reader.received p).length = reader.size ∧
      ((reader.received p).length : ℤ) < accepted.length
  ip : accepted.ip = reader.ipFields p

theorem lt_length_takeWhile_iff {α : Type*} {q : α → Bool} {l : List α} {i : ℕ} :
    i < (l.takeWhile q).length ↔ i < l.length ∧ ∀ j ≤ i, ∀ x ∈ l[j]?, q x = true := by
  induction l generalizing i with
  | nil => simp
  | cons y l ih =>
    cases hy : q y with
    | false =>
      rw [List.takeWhile_cons_of_neg (by simp [hy])]
      simp only [List.length_nil, Nat.not_lt_zero, false_iff, not_and]
      intro _ hall
      have hfirst := hall 0 (Nat.zero_le i) y rfl
      rw [hy] at hfirst
      cases hfirst
    | true =>
      rw [List.takeWhile_cons_of_pos hy]
      cases i with
      | zero => simp [hy]
      | succ i =>
        rw [List.length_cons, List.length_cons, Nat.succ_lt_succ_iff, Nat.succ_lt_succ_iff, ih]
        refine and_congr_right fun _ => ⟨fun hall j hj x hx => ?_, fun hall j hj x hx => ?_⟩
        · cases j with
          | zero => exact Option.some.inj hx ▸ hy
          | succ j => exact hall j (Nat.le_of_succ_le_succ hj) x hx
        · exact hall (j + 1) (Nat.succ_le_succ hj) x hx

variable {reader : Reader} {data : ℕ}

theorem received_initial (reader : Reader) (p : Packet) : reader.received p <+: p.payload :=
  List.take_prefix _ _

/-- A byte that was received is one of the payload. -/
theorem getElem?_payload {i : ℕ} {x : UInt8} (h : (reader.received p)[i]? = some x) :
    p.payload[i]? = some x := by
  obtain ⟨rest, hrest⟩ := received_initial reader p
  rw [← hrest, List.getElem?_append_left (List.getElem?_eq_some_iff.mp h).1, h]

theorem Reader.GetsText.lt_length (h : reader.GetsText p) {i : ℕ} (hi : i < p.text.length) :
    i < (reader.received p).length := by
  rw [Packet.text, lt_length_takeWhile_iff] at hi
  rcases h with hall | hnul
  · rw [hall]
    exact hi.1
  -- the text ends at the NUL at the latest
  · by_contra hge
    obtain ⟨z, hz⟩ := List.mem_iff_getElem?.mp hnul
    have hlt := (List.getElem?_eq_some_iff.mp hz).1
    have hne := hi.2 z (by omega) 0 (getElem?_payload hz)
    exact absurd hne (by decide)

/-- The bytes of the text have been received, if its end has. -/
theorem getElem?_received (h : reader.GetsText p) {i : ℕ} (hi : i < p.text.length) :
    (reader.received p)[i]? = p.payload[i]? := by
  have hlt := h.lt_length hi
  obtain ⟨rest, hrest⟩ := received_initial reader p
  rw [← hrest, List.getElem?_append_left hlt]

theorem stores_text (h : Stores buffer data (reader.received p)) (htext : reader.GetsText p) :
    Stores buffer data p.text := by
  intro i b hb
  have hi : i < p.text.length := (List.getElem?_eq_some_iff.mp hb).1
  obtain ⟨rest, hrest⟩ : p.text <+: p.payload := List.takeWhile_prefix _
  apply h i b
  rw [getElem?_received htext hi, ← hrest, List.getElem?_append_left hi, hb]

/-- The payload is printed up to a NUL. -/
theorem printed_iff (h : Stores buffer data (reader.received p)) (htext : reader.GetsText p)
    (i : ℕ) : Printed buffer data p.payload.length i ↔ i < p.text.length := by
  constructor
  · rintro ⟨hfits, hne⟩
    have hlt := hfits (by omega)
    rw [Packet.text, lt_length_takeWhile_iff]
    refine ⟨by omega, fun j hj x hx => ?_⟩
    -- `printf` cannot have come past what was received without its NUL
    by_cases hreceived : j < (reader.received p).length
    · have hget := List.getElem?_eq_getElem hreceived
      have hx' := Option.some.inj ((getElem?_payload hget).symm.trans hx)
      have hnonzero := hne j hj
      rw [h j _ hget, hx'] at hnonzero
      simpa using hnonzero
    · rcases htext with hall | hnul
      · have hlt' := (List.getElem?_eq_some_iff.mp hx).1
        rw [hall] at hreceived
        exact absurd hlt' hreceived
      · obtain ⟨z, hz⟩ := List.mem_iff_getElem?.mp hnul
        have hz' := (List.getElem?_eq_some_iff.mp hz).1
        exact absurd (h z 0 hz) (hne z (by omega))
  · intro hi
    have hall := hi
    rw [Packet.text, lt_length_takeWhile_iff] at hall
    refine ⟨fun _ => by omega, fun j hj => ?_⟩
    have hj' : j < p.payload.length := by omega
    have hget : p.payload[j]? = some p.payload[j] := List.getElem?_eq_getElem hj'
    have hnonzero := hall.2 j hj _ hget
    rw [h j _ ((getElem?_received htext (hj.trans_lt hi)).trans hget)]
    simpa using hnonzero

/-- Without its end, the text is printed as far as it has been received. -/
theorem printed_of_cut (h : Stores buffer data (reader.received p)) (htext : ¬ reader.GetsText p)
    {i : ℕ} (hi : i < (reader.received p).length) : Printed buffer data p.payload.length i := by
  rw [Reader.GetsText, not_or] at htext
  refine ⟨fun _ => ?_, fun j hj hzero => htext.2 ?_⟩
  · have hle := (received_initial reader p).length_le
    omega
  · have hget := List.getElem?_eq_getElem (hj.trans_lt hi)
    rw [← hzero, h j _ hget]
    exact List.getElem_mem _

/-- What a client does with a packet where it looks for one. -/
theorem receiveIp_value (h : Carries buffer ip p) (sourcePort : ℕ) :
    (receiveIp buffer ip sourcePort).value =
      if p.source.toNat = serverPort ∧ p.dest.toNat = sourcePort then
        some { source := p.source.toNat, dest := p.dest.toNat, length := (p.len : ℤ) - 8,
               data := ip + p.ihl * 4 + 8,
               ip := some ⟨bytes32 p.saddr, bytes32 p.daddr, p.id.toNat⟩ }
      else none := by
  simp only [receiveIp, acceptDatagram, Reading.bind_value, byte_value, h.protocol, if_true,
    ihl_value, h.headerLen, ntohs_value, h.source]
  by_cases hsource : p.source.toNat = serverPort
  · by_cases hdest : p.dest.toNat = sourcePort
    · rw [if_pos hsource, if_pos ⟨hsource, hdest⟩]
      simp only [Reading.bind_value, ntohs_value, h.dest, hdest, if_true, h.saddr, h.daddr, h.id,
        h.len, h.source, Reading.pure_value]
    · rw [if_pos hsource, if_neg fun hboth => hdest hboth.2]
      simp only [Reading.bind_value, ntohs_value, h.dest, hdest, if_false, Reading.pure_value]
  · rw [if_neg hsource, if_neg fun hboth => hsource hboth.1]
    rfl

theorem receiveUdp_value (h : Carries buffer 0 p) :
    (receiveUdp buffer).value =
      if p.source.toNat = serverPort then
        some { source := p.source.toNat, dest := p.dest.toNat, length := (p.len : ℤ) - 8,
               data := p.ihl * 4 + 8, ip := none }
      else none := by
  obtain ⟨hheader, -, -, -, -, hsource, hdest, hlen⟩ := h
  simp only [Nat.zero_add] at hsource hdest hlen
  simp only [receiveUdp, acceptDatagram, Reading.bind_value, ihl_value, hheader, ntohs_value,
    hsource]
  split
  · simp only [Reading.bind_value, ntohs_value, hdest, hlen, hsource, Reading.pure_value]
  · rfl

/-- All headers fit the buffer, with any options. -/
theorem headers_le_size (reader : Reader) (p : Packet) :
    reader.ipAt + p.ihl * 4 + 8 ≤ reader.size := by
  have hihl := ihl_mul_four p
  have hle := p.options_le
  cases reader <;> simp only [Reader.ipAt, Reader.size, buffSize] <;> omega

/-- What comes before the payload. -/
def Reader.front : Reader → Arrival → List UInt8
  | .packet, a => a.macs ++ (bytes16 (htons (UInt16.ofNat ethPIp)) ++ a.packet.headers)
  | _, a => a.packet.headers

theorem bytes_eq_front (reader : Reader) (a : Arrival) :
    reader.bytes a = reader.front a ++ a.packet.payload := by
  cases reader <;> simp only [Reader.bytes, Reader.front, Packet.bytes, List.append_assoc]

theorem length_front (reader : Reader) (a : Arrival) :
    (reader.front a).length = reader.ipAt + a.packet.ihl * 4 + 8 := by
  cases reader <;> simp only [Reader.front, Reader.ipAt, List.length_append, length_headers,
    length_bytes16, a.length_macs] <;> omega

/-- The headers and what there is room for of the payload are received. -/
theorem stores_arrival (reader : Reader) (a : Arrival) (buffer : Buffer) :
    Stores (recvfrom reader.size (reader.bytes a) buffer) 0 (reader.front a) ∧
      Stores (recvfrom reader.size (reader.bytes a) buffer)
        (reader.ipAt + a.packet.ihl * 4 + 8) (reader.received a.packet) := by
  have hstores := stores_recvfrom reader.size (reader.bytes a) buffer
  have hle : (reader.front a).length ≤ reader.size :=
    (length_front reader a).trans_le (headers_le_size reader a.packet)
  have htake : (reader.bytes a).take reader.size =
      reader.front a ++ reader.received a.packet := by
    rw [bytes_eq_front, List.take_append, List.take_of_length_le hle, length_front]
    rfl
  rw [htake, stores_append, Nat.zero_add, length_front] at hstores
  exact hstores

theorem shows_of_carries {accepted : Accepted}
    (hstores : Stores buffer (reader.ipAt + p.ihl * 4 + 8) (reader.received p))
    (hsource : accepted.source = p.source.toNat) (hdest : accepted.dest = p.dest.toNat)
    (hlength : accepted.length = (p.len : ℤ) - 8)
    (hdata : accepted.data = reader.ipAt + p.ihl * 4 + 8)
    (hip : accepted.ip = reader.ipFields p) : Shows reader accepted buffer p := by
  have hlength : accepted.length = p.payload.length := by
    rw [hlength, Packet.len]
    omega
  refine ⟨hsource, hdest, hlength, hdata ▸ hstores, fun htext => ?_, fun htext => ?_, hip⟩
  · rw [hlength, hdata]
    exact ⟨stores_text hstores htext, printed_iff hstores htext⟩
  · rw [hlength, hdata]
    have hcut : (reader.received p).length ≠ p.payload.length := fun heq =>
      htext (.inl ((received_initial reader p).eq_of_length heq))
    have hroom := headers_le_size reader p
    rw [Reader.received, List.length_take] at hcut
    refine ⟨fun i hi => printed_of_cut hstores htext hi, ?_, ?_⟩
    · rw [Reader.received, List.length_take]
      omega
    · rw [Reader.received, List.length_take]
      omega

/-- What a client does with a packet: the same whatever its buffer held before. -/
theorem receive_arrival (reader : Reader) (a : Arrival) (buffer : Buffer) :
    if reader.Awaits a.packet then
      ∃ accepted,
        (reader.receive (recvfrom reader.size (reader.bytes a) buffer)).value = some accepted ∧
          Shows reader accepted (recvfrom reader.size (reader.bytes a) buffer) a.packet
    else (reader.receive (recvfrom reader.size (reader.bytes a) buffer)).value = none := by
  obtain ⟨hfront, hpayload⟩ := stores_arrival reader a buffer
  generalize recvfrom reader.size (reader.bytes a) buffer = received at hfront hpayload ⊢
  cases reader with
  | sniffer => rfl
  | packet =>
    -- in a whole frame the packet comes after the addresses and the type
    rw [Reader.front, stores_append, stores_append, a.length_macs] at hfront
    obtain ⟨-, hether, hpacket⟩ := hfront
    have hproto : hProto received = ethPIp := port_eq hether
    have h : Carries received 14 a.packet := carries_of_stores hpacket
    have hvalue := receiveIp_value h 8888
    simp only [Reader.receive, receivePacket, hproto, if_true]
    split
    · rename_i hawaits
      exact ⟨_, hvalue.trans (if_pos hawaits), shows_of_carries hpayload rfl rfl rfl rfl rfl⟩
    · rename_i hawaits
      exact hvalue.trans (if_neg hawaits)
  | ipUdp =>
    have h : Carries received 0 a.packet := carries_of_stores hfront
    have hvalue := receiveIp_value h 888
    split
    · rename_i hawaits
      exact ⟨_, hvalue.trans (if_pos hawaits), shows_of_carries hpayload rfl rfl rfl rfl rfl⟩
    · rename_i hawaits
      exact hvalue.trans (if_neg hawaits)
  | udp =>
    have h : Carries received 0 a.packet := carries_of_stores hfront
    have hvalue := receiveUdp_value h
    split
    · rename_i hawaits
      exact ⟨_, hvalue.trans (if_pos hawaits),
        shows_of_carries hpayload rfl rfl rfl (by simp [Reader.ipAt]) rfl⟩
    · rename_i hawaits
      exact hvalue.trans (if_neg hawaits)

/-- Whatever packets arrive, a client waits for the first one from port 10200, and to its own
port if it looks at that; it prints the fields and the text of this packet, as far as it has
room for them, and nothing of the packets before it. -/
theorem takes_first_reply (reader : Reader) (buffer : Buffer) (arrivals : List Arrival) :
    match arrivals.find? fun a => decide (reader.Awaits a.packet) with
    | none => receiveLoop reader buffer (arrivals.map reader.bytes) = none
    | some a => ∃ accepted received,
        receiveLoop reader buffer (arrivals.map reader.bytes) = some (accepted, received) ∧
          Shows reader accepted received a.packet := by
  induction arrivals generalizing buffer with
  | nil => rfl
  | cons a arrivals ih =>
    have hreceive := receive_arrival reader a buffer
    rw [List.find?_cons, List.map_cons, receiveLoop]
    by_cases hawaits : reader.Awaits a.packet
    · rw [if_pos hawaits] at hreceive
      obtain ⟨accepted, hvalue, hshows⟩ := hreceive
      simp only [hawaits, decide_true, hvalue]
      exact ⟨accepted, _, rfl, hshows⟩
    · rw [if_neg hawaits] at hreceive
      simp only [hawaits, decide_false, hreceive]
      exact ih _

/-! ### What the clients send -/

/-- `inet_addr("127.0.0.1")`. -/
def loopback : UInt32 := 0x0100007F

/-- The hardware addresses of the server and of the client. -/
def mainMacs : List UInt8 :=
  [0x08, 0x00, 0x27, 0x83, 0x7a, 0x42] ++ [0x08, 0x00, 0x27, 0x19, 0x34, 0x4b]

/-- `ip_hdr->check = ip_checksum(…)` in a header that was built with zero there. -/
def storeIpCheck (header : List UInt8) : List UInt8 :=
  header.take 10 ++ (bytes16 (ipChecksum header) ++ header.drop 12)

/-- The datagram header of `main`, with zero as its checksum. -/
def sentUdphdr (sourcePort : UInt16) (message : List UInt8) : Udphdr :=
  { source := htons sourcePort, dest := htons 10200,
    len := htons (UInt16.ofNat (8 + message.length)), check := 0 }

/-- What `main` hands to `sendto`. It fails if the buffer has no room for the message, which
`strcpy` copies with its NUL. -/
def Reader.sent : Reader → List UInt8 → Option (List UInt8)
  | .sniffer, _ => none
  | .packet, message =>
    if 14 + 20 + 8 + message.length < buffSize then
      (storeCheck mainSaddr mainDaddr (sentUdphdr 8888 message) message).map fun udp =>
        mainMacs ++ (bytes16 (htons (UInt16.ofNat ethPIp)) ++
          (storeIpCheck (ipHeader mainSaddr mainDaddr message.length) ++ (udp.bytes ++ message)))
    else none
  | .ipUdp, message =>
    if 20 + 8 + message.length < buffSize then
      some (ipHeader loopback loopback message.length ++
        ((sentUdphdr 888 message).bytes ++ message))
    else none
  | .udp, message =>
    if 8 + message.length < buffSize then some ((sentUdphdr 888 message).bytes ++ message) else none

/-- The packet of a client with these addresses, port and checksums. -/
def mainPacket (saddr daddr : UInt32) (source check udpCheck : UInt16) (message : List UInt8)
    (h : message.length < buffSize) : Packet where
  tos := 0
  id := 1010
  fragOff := 0
  ttl := 64
  check := check
  saddr := saddr
  daddr := daddr
  options := []
  source := source
  dest := 10200
  udpCheck := udpCheck
  payload := message
  options_dvd := Nat.dvd_zero _
  options_le := Nat.zero_le _
  length_lt := by
    rw [buffSize] at h
    simp only [List.length_nil]
    omega

/-- The header of `main` with a checksum in its field. -/
def checkedHeader (saddr daddr : UInt32) (check : UInt16) (dataLen : ℕ) : List UInt8 :=
  [0x45, 0] ++ bytes16 (htons (UInt16.ofNat (28 + dataLen))) ++ bytes16 (htons 1010) ++
    [0, 0, 64, ipprotoUdp] ++ (bytes16 check ++ (bytes32 saddr ++ bytes32 daddr))

variable {saddr daddr : UInt32} {source check udpCheck : UInt16} {message : List UInt8}

theorem storeIpCheck_eq (dataLen : ℕ) : storeIpCheck (ipHeader saddr daddr dataLen) =
    checkedHeader saddr daddr (ipChecksum (ipHeader saddr daddr dataLen)) dataLen := rfl

theorem bytes_mainPacket (h : message.length < buffSize) :
    (mainPacket saddr daddr source check udpCheck message h).bytes =
      checkedHeader saddr daddr check message.length ++
        ((⟨htons source, htons 10200, htons (UInt16.ofNat (8 + message.length)), udpCheck⟩ :
          Udphdr).bytes ++ message) := by
  have hihl : (mainPacket saddr daddr source check udpCheck message h).ihl = 5 := by
    simp [Packet.ihl, mainPacket]
  have hversion : (0x40 : UInt8) + UInt8.ofNat 5 = 0x45 := rfl
  have hlen : 5 * 4 + (8 + message.length) = 28 + message.length := by omega
  have hfrag : bytes16 (htons 0) = [0, 0] := rfl
  rw [Packet.bytes, Packet.headers, hihl, hversion]
  simp only [mainPacket, Packet.len, Packet.udphdr, hlen, hfrag, checkedHeader, List.append_assoc,
    List.nil_append, List.cons_append]

/-- The receiver's sums over both headers are all ones. -/
theorem sums_mainPacket (hfits : 20 + message.length ≤ buffSize) (h : message.length < buffSize)
    (hcheck : check = ipChecksum (ipHeader saddr daddr message.length))
    (hudp : udpCheck = bufferChecksum (udpBuffer saddr daddr (sentUdphdr source message) message)) :
    onesComplementSum ((mainPacket saddr daddr source check udpCheck message h).bytes.take 20) =
        0xFFFF ∧
      onesComplementSum (udpBuffer saddr daddr
        (mainPacket saddr daddr source check udpCheck message h).udphdr message) = 0xFFFF := by
  constructor
  · have hheader : (checkedHeader saddr daddr check message.length).length = 20 := by
      simp [checkedHeader]
    rw [bytes_mainPacket, List.take_left' hheader, checkedHeader, ← List.append_assoc]
    refine onesComplementSum_field (by simp) ?_
    rw [hcheck, ipChecksum_eq (by simp [ipHeader])]
    rfl
  · have hfield : ∀ value : UInt16, udpBuffer saddr daddr
        ⟨htons source, htons 10200, htons (UInt16.ofNat (8 + message.length)), value⟩ message =
        pseudoHeader saddr daddr message.length ++ (bytes16 (htons source) ++
          bytes16 (htons 10200) ++ bytes16 (htons (UInt16.ofNat (8 + message.length)))) ++
          bytes16 value ++ message := fun value => by
      simp [udpBuffer, Udphdr.bytes, List.append_assoc]
    have hlength : (udpBuffer saddr daddr (sentUdphdr source message) message).length ≤ 65535 := by
      rw [buffSize] at hfits
      simp [udpBuffer, pseudoHeader, Udphdr.bytes]
      omega
    change onesComplementSum (udpBuffer saddr daddr ⟨htons source, htons 10200,
      htons (UInt16.ofNat (8 + message.length)), udpCheck⟩ message) = 0xFFFF
    rw [hfield]
    refine onesComplementSum_field ?_ ?_
    · simp [pseudoHeader]
    · rw [hudp, bufferChecksum_eq hlength, sentUdphdr, hfield]
      rfl

/-- For every message that the buffer of `main` has room for, the frame with the checksums in
it is a well-formed packet with this payload. Both sums verify, the sniffer prints the ports
and the length of the datagram, and no client takes the frame for an answer. -/
theorem sent_packet (hfits : 14 + 20 + 8 + message.length < buffSize) :
    ∃ a : Arrival, Reader.packet.sent message = some (Reader.packet.bytes a) ∧
      a.packet.payload = message ∧
      onesComplementSum (a.packet.bytes.take 20) = 0xFFFF ∧
      onesComplementSum (udpBuffer a.packet.saddr a.packet.daddr a.packet.udphdr message) = 0xFFFF ∧
      (∀ buffer, (processPacket (recvfrom Reader.sniffer.size a.packet.bytes buffer)).value = some
        { source := bytes32 mainSaddr, dest := bytes32 mainDaddr, sourcePort := 8888,
          destPort := 10200, udpLength := 8 + message.length }) ∧
      ∀ reader : Reader, ¬ reader.Awaits a.packet := by
  have hroom : message.length < buffSize := by omega
  let udp := sentUdphdr 8888 message
  let packet := mainPacket mainSaddr mainDaddr 8888
    (ipChecksum (ipHeader mainSaddr mainDaddr message.length))
    (bufferChecksum (udpBuffer mainSaddr mainDaddr udp message)) message hroom
  have hstore : storeCheck mainSaddr mainDaddr udp message = some packet.udphdr := by
    apply storeCheck_eq
    rw [buffSize] at hfits ⊢
    simp [udpBuffer, pseudoHeader, Udphdr.bytes]
    omega
  have hbytes : packet.bytes = storeIpCheck (ipHeader mainSaddr mainDaddr message.length) ++
      (packet.udphdr.bytes ++ message) := by
    rw [storeIpCheck_eq]
    exact bytes_mainPacket hroom
  have hsums := @sums_mainPacket mainSaddr mainDaddr 8888 _ _ message (by omega) hroom rfl rfl
  refine ⟨⟨mainMacs, packet, rfl⟩, ?_, rfl, hsums.1, hsums.2, fun buffer => ?_, fun reader => ?_⟩
  · rw [Reader.sent, if_pos hfits, hstore, Option.map_some, Reader.bytes, hbytes]
  · exact sniffs_fields packet buffer
  · have hsource : (8888 : UInt16).toNat ≠ serverPort := by decide
    cases reader with
    | sniffer => exact id
    | packet | ipUdp => exact fun h => hsource h.1
    | udp => exact hsource

def hello : List UInt8 := [72, 101, 108, 108, 111, 33]

/-- "Hello!" -/
theorem sent_packet_hello : ∃ a : Arrival,
    Reader.packet.sent hello = some (Reader.packet.bytes a) ∧ a.packet.payload = hello := by
  obtain ⟨a, hsent, hpayload, -⟩ := @sent_packet hello (by decide)
  exact ⟨a, hsent, hpayload⟩

/-- The other two clients leave the checksums at zero; one of them leaves the IP header to the
kernel. Neither takes its own packet for an answer. -/
theorem sent_loopback (hfits : 20 + 8 + message.length < buffSize) :
    ∃ a : Arrival, Reader.ipUdp.sent message = some (Reader.ipUdp.bytes a) ∧
      Reader.udp.sent message = some (a.packet.udphdr.bytes ++ a.packet.payload) ∧
      ∀ reader : Reader, ¬ reader.Awaits a.packet := by
  have hroom : message.length < buffSize := by omega
  refine ⟨⟨mainMacs, mainPacket loopback loopback 888 0 0 message hroom, rfl⟩, ?_, ?_,
    fun reader => ?_⟩
  · rw [Reader.sent, if_pos hfits]
    change _ = some (Packet.bytes _)
    rw [bytes_mainPacket]
    rfl
  · rw [Reader.sent, if_pos (by omega)]
    rfl
  · have hsource : (888 : UInt16).toNat ≠ serverPort := by decide
    cases reader with
    | sniffer => exact id
    | packet | ipUdp => exact fun h => hsource h.1
    | udp => exact hsource

end UnixLessons.RawSockets

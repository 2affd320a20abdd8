import UnixLessons.RawSockets.Checksum

/-!
# The readers of raw packets

The sniffer and the three raw clients look for the headers of IP and UDP in the buffer
that `recvfrom` has filled. They take the size of the IP header and the length of the
datagram from the packet itself, and none of them compares these with the number of bytes
that were received. A client prints the payload with a precision, and a precision below
zero means that there is none.

## Main results

* `rounds_inside_iff`: what packets must be like for their reader to stay inside them
-/

namespace UnixLessons.RawSockets

/-- The receive buffer and the memory behind it. -/
abbrev Buffer := ℕ → UInt8

/-- `recvfrom` puts the packet at the start of a buffer of `size` bytes. The rest of a longer
packet is lost, and the bytes behind a shorter one stay. -/
def recvfrom (size : ℕ) (packet : List UInt8) (buffer : Buffer) : Buffer :=
  fun i => (packet.take size).getD i (buffer i)

/-- A value and the offsets of all bytes of the headers that were read for it. -/
structure Reading (α : Type) where
  value : α
  offsets : List ℕ

namespace Reading

variable {α β : Type} {n : ℕ}

instance : Monad Reading where
  pure value := ⟨value, []⟩
  bind reading next :=
    ⟨(next reading.value).value, reading.offsets ++ (next reading.value).offsets⟩

@[simp] theorem pure_value (value : α) : (pure value : Reading α).value = value := rfl

@[simp] theorem bind_value (reading : Reading α) (next : α → Reading β) :
    (reading >>= next).value = (next reading.value).value := rfl

/-- All reads are below `n`. -/
def Within (n : ℕ) (reading : Reading α) : Prop := ∀ offset ∈ reading.offsets, offset < n

@[simp] theorem within_pure (value : α) : (pure value : Reading α).Within n := by
  intro offset hoffset
  exact absurd hoffset List.not_mem_nil

@[simp] theorem within_bind (reading : Reading α) (next : α → Reading β) :
    (reading >>= next).Within n ↔ reading.Within n ∧ (next reading.value).Within n :=
  List.forall_mem_append

end Reading

/-! ### Fields -/

def byte (buffer : Buffer) (offset : ℕ) : Reading UInt8 := ⟨buffer offset, [offset]⟩

/-- The value of `ntohs` of two bytes of the buffer. -/
def port (buffer : Buffer) (offset : ℕ) : ℕ :=
  (buffer offset).toNat * 256 + (buffer (offset + 1)).toNat

def ntohs (buffer : Buffer) (offset : ℕ) : Reading ℕ :=
  ⟨port buffer offset, [offset, offset + 1]⟩

/-- The four bytes that `inet_ntoa` prints. -/
def address (buffer : Buffer) (offset : ℕ) : Reading (List UInt8) :=
  ⟨(List.range 4).map fun i => buffer (offset + i), (List.range 4).map (offset + ·)⟩

/-- Size of the IP header at `ip`, from its field `ihl`. -/
def headerLen (buffer : Buffer) (ip : ℕ) : ℕ := (buffer ip).toNat % 16 * 4

def ihl (buffer : Buffer) (ip : ℕ) : Reading ℕ := ⟨headerLen buffer ip, [ip]⟩

/-- The type of the Ethernet frame; its header is neither IP's nor UDP's. -/
def hProto (buffer : Buffer) : ℕ := port buffer 12

/-- `ETH_P_IP`. -/
def ethPIp : ℕ := 0x0800

/-- `SERVER_PORT`. -/
def serverPort : ℕ := 10200

/-! ### The readers -/

/-- What `process_packet` prints of a packet. -/
structure Sniffed where
  source : List UInt8
  dest : List UInt8
  sourcePort : ℕ
  destPort : ℕ
  udpLength : ℕ

/-- `process_packet` of the sniffer. -/
def processPacket (buffer : Buffer) : Reading (Option Sniffed) := do
  let protocol ← byte buffer 9
  if protocol = ipprotoUdp then
    let udp ← ihl buffer 0
    let source ← address buffer 12
    let dest ← address buffer 16
    let sourcePort ← ntohs buffer udp
    let destPort ← ntohs buffer (udp + 2)
    let udpLength ← ntohs buffer (udp + 4)
    pure (some { source, dest, sourcePort, destPort, udpLength })
  else
    pure none

/-- What a client prints of the IP header. -/
structure IpFields where
  saddr : List UInt8
  daddr : List UInt8
  id : ℕ

/-- What a client prints of the packet it accepts: the payload is the text from `data` on
with `length` as precision. -/
structure Accepted where
  source : ℕ
  dest : ℕ
  length : ℤ
  data : ℕ
  ip : Option IpFields

/-- The branch in which a client has accepted the datagram at `udp`. -/
def acceptDatagram (buffer : Buffer) (udp : ℕ) : Reading Accepted := do
  let len ← ntohs buffer (udp + 4)
  let source ← ntohs buffer udp
  let dest ← ntohs buffer (udp + 2)
  pure { source, dest, length := (len : ℤ) - 8, data := udp + 8, ip := none }

/-- The part that the loops of `SocketsRawPacket` and `SocketsRawIPUDP` share: the IP
header is at `ip`, and `sourcePort` is the client's own port. -/
def receiveIp (buffer : Buffer) (ip sourcePort : ℕ) : Reading (Option Accepted) := do
  let ipHeaderLen ← ihl buffer ip
  let protocol ← byte buffer (ip + 9)
  if protocol = ipprotoUdp then
    let udp := ip + ipHeaderLen
    let source ← ntohs buffer udp
    if source = serverPort then
      let dest ← ntohs buffer (udp + 2)
      if dest = sourcePort then
        let accepted ← acceptDatagram buffer udp
        let saddr ← address buffer (ip + 12)
        let daddr ← address buffer (ip + 16)
        let id ← ntohs buffer (ip + 4)
        pure (some { accepted with ip := some { saddr, daddr, id } })
      else
        pure none
    else
      pure none
  else
    pure none

/-- One round of the loop of `SocketsRawPacket/Client`. -/
def receivePacket (buffer : Buffer) : Reading (Option Accepted) :=
  if hProto buffer = ethPIp then receiveIp buffer 14 8888 else pure none

/-- One round of the loop of `SocketsRawIPUDP`. -/
def receiveIpUdp (buffer : Buffer) : Reading (Option Accepted) := receiveIp buffer 0 888

/-- One round of the loop of `SoketsRawUDP`, which tests the source port only. -/
def receiveUdp (buffer : Buffer) : Reading (Option Accepted) := do
  let udp ← ihl buffer 0
  let source ← ntohs buffer udp
  if source = serverPort then
    let accepted ← acceptDatagram buffer udp
    pure (some accepted)
  else
    pure none

/-- The programs that read raw packets. -/
inductive Reader
  | sniffer
  | packet
  | ipUdp
  | udp

/-- The size of the receive buffer. -/
def Reader.size : Reader → ℕ
  | .sniffer => 65536
  | .packet | .ipUdp | .udp => buffSize

/-- What a client does with one packet; the sniffer is none. -/
def Reader.receive : Reader → Buffer → Reading (Option Accepted)
  | .sniffer, _ => pure none
  | .packet, buffer => receivePacket buffer
  | .ipUdp, buffer => receiveIpUdp buffer
  | .udp, buffer => receiveUdp buffer

/-! ### Reading inside the packet -/

/-- Byte `i` from `data` on is printed by `%.*s`. A precision below zero is no bound. -/
def Printed (buffer : Buffer) (data : ℕ) (precision : ℤ) (i : ℕ) : Prop :=
  (0 ≤ precision → (i : ℤ) < precision) ∧ ∀ j ≤ i, buffer (data + j) ≠ 0

/-- The payload is printed, all of it, and nothing that was not received. -/
def Accepted.PrintsPayload (accepted : Accepted) (buffer : Buffer) (n : ℕ) : Prop :=
  0 ≤ accepted.length ∧
  (∀ i, Printed buffer accepted.data accepted.length i ↔ (i : ℤ) < accepted.length) ∧
  ∀ i : ℕ, (i : ℤ) < accepted.length → accepted.data + i < n

/-- With `n` bytes received, the reader stays inside them. -/
def Reader.Inside (reader : Reader) (buffer : Buffer) (n : ℕ) : Prop :=
  (reader = .sniffer → (processPacket buffer).Within n) ∧
  (reader.receive buffer).Within n ∧
  ∀ accepted ∈ (reader.receive buffer).value, accepted.PrintsPayload buffer n

/-- The fixed part of the datagram at `udp` is there, and its length is that of a payload
that is there too and is a text. -/
def DatagramFits (buffer : Buffer) (udp n : ℕ) : Prop :=
  udp + 6 ≤ n ∧ 8 ≤ port buffer (udp + 4) ∧
  (port buffer (udp + 4) = 8 ∨ udp + port buffer (udp + 4) ≤ n) ∧
  ∀ i < port buffer (udp + 4) - 8, buffer (udp + 8 + i) ≠ 0

/-- The IP header at `ip` and, for the port it has to have, the datagram behind it. -/
def IpFits (buffer : Buffer) (ip sourcePort n : ℕ) : Prop :=
  ip + 9 < n ∧ (buffer (ip + 9) = ipprotoUdp →
    ip + headerLen buffer ip + 2 ≤ n ∧ (port buffer (ip + headerLen buffer ip) = serverPort →
      ip + headerLen buffer ip + 4 ≤ n ∧
      (port buffer (ip + headerLen buffer ip + 2) = sourcePort →
        ip + 20 ≤ n ∧ DatagramFits buffer (ip + headerLen buffer ip) n)))

/-- What a packet must be like for its reader. -/
def Reader.Fits : Reader → Buffer → ℕ → Prop
  | .sniffer, buffer, n =>
    9 < n ∧ (buffer 9 = ipprotoUdp → 20 ≤ n ∧ headerLen buffer 0 + 6 ≤ n)
  | .packet, buffer, n => hProto buffer = ethPIp → IpFits buffer 14 8888 n
  | .ipUdp, buffer, n => IpFits buffer 0 888 n
  | .udp, buffer, n =>
    0 < n ∧ headerLen buffer 0 + 2 ≤ n ∧
      (port buffer (headerLen buffer 0) = serverPort → DatagramFits buffer (headerLen buffer 0) n)

variable {buffer : Buffer} {n offset udp ip sourcePort : ℕ}

@[simp] theorem byte_value : (byte buffer offset).value = buffer offset := rfl

@[simp] theorem ntohs_value : (ntohs buffer offset).value = port buffer offset := rfl

@[simp] theorem ihl_value : (ihl buffer offset).value = headerLen buffer offset := rfl

@[simp] theorem within_byte : (byte buffer offset).Within n ↔ offset < n :=
  List.forall_mem_singleton

@[simp] theorem within_ihl : (ihl buffer offset).Within n ↔ offset < n :=
  List.forall_mem_singleton

/-- A field is inside if its last byte is. -/
@[simp] theorem within_ntohs : (ntohs buffer offset).Within n ↔ offset + 2 ≤ n := by
  simp only [Reading.Within, ntohs, List.mem_cons, List.not_mem_nil, or_false, forall_eq_or_imp,
    forall_eq]
  omega

@[simp] theorem within_address : (address buffer offset).Within n ↔ offset + 4 ≤ n := by
  simp only [Reading.Within, address, List.forall_mem_map, List.mem_range]
  constructor
  · intro h
    exact h 3 (by decide)
  · intro h i hi
    omega

theorem within_acceptDatagram : (acceptDatagram buffer udp).Within n ↔ udp + 6 ≤ n := by
  simp only [acceptDatagram, Reading.within_bind, within_ntohs, Reading.within_pure, and_true]
  omega

/-- Without a NUL in the payload the precision is the number of bytes that are printed. -/
theorem printsPayload_iff {accepted : Accepted}
    (hlength : accepted.length = (port buffer (udp + 4) : ℤ) - 8)
    (hdata : accepted.data = udp + 8) :
    accepted.PrintsPayload buffer n ↔ 8 ≤ port buffer (udp + 4) ∧
      (port buffer (udp + 4) = 8 ∨ udp + port buffer (udp + 4) ≤ n) ∧
      ∀ i < port buffer (udp + 4) - 8, buffer (udp + 8 + i) ≠ 0 := by
  rw [Accepted.PrintsPayload, hlength, hdata]
  generalize port buffer (udp + 4) = len
  constructor
  · rintro ⟨hnonneg, hprinted, hinside⟩
    refine ⟨by omega, ?_, fun i hi => ?_⟩
    · -- of an empty payload no byte is printed, so none has to be there
      by_cases hempty : len = 8
      · exact Or.inl hempty
      · have hlast := hinside (len - 9) (by omega)
        exact Or.inr (by omega)
    · exact ((hprinted i).mpr (by omega)).2 i le_rfl
  · rintro ⟨hheader, hbound, htext⟩
    refine ⟨by omega, fun i => ⟨fun h => h.1 (by omega), fun hi => ⟨fun _ => hi, fun j hj => ?_⟩⟩,
      fun i hi => by omega⟩
    exact htext j (by omega)

theorem acceptDatagram_fits_iff {accepted : Accepted}
    (hlength : accepted.length = (acceptDatagram buffer udp).value.length)
    (hdata : accepted.data = (acceptDatagram buffer udp).value.data) :
    (acceptDatagram buffer udp).Within n ∧ accepted.PrintsPayload buffer n ↔
      DatagramFits buffer udp n := by
  rw [within_acceptDatagram, printsPayload_iff hlength hdata, DatagramFits]

theorem processPacket_within_iff :
    (processPacket buffer).Within n ↔
      9 < n ∧ (buffer 9 = ipprotoUdp → 20 ≤ n ∧ headerLen buffer 0 + 6 ≤ n) := by
  rw [processPacket, Reading.within_bind, within_byte, byte_value]
  by_cases hproto : buffer 9 = ipprotoUdp
  · simp only [hproto, if_true, Reading.within_bind, within_ihl, within_address, within_ntohs,
      ihl_value, Reading.within_pure, and_true, true_implies]
    omega
  · simp [hproto]

/-- The fields are read in this order, each only if the ones before it say so. -/
theorem receiveIp_fits_iff :
    (receiveIp buffer ip sourcePort).Within n ∧
      (∀ accepted ∈ (receiveIp buffer ip sourcePort).value, accepted.PrintsPayload buffer n) ↔
      IpFits buffer ip sourcePort n := by
  simp only [receiveIp, IpFits, Reading.within_bind, Reading.bind_value, within_byte, byte_value,
    within_ihl, ihl_value]
  by_cases hproto : buffer (ip + 9) = ipprotoUdp
  · simp only [hproto, if_true, Reading.within_bind, Reading.bind_value, within_ntohs, ntohs_value,
      true_implies]
    generalize ip + headerLen buffer ip = udp
    by_cases hsource : port buffer udp = serverPort
    · simp only [hsource, if_true, Reading.within_bind, Reading.bind_value, within_ntohs,
        ntohs_value, true_implies]
      by_cases hdest : port buffer (udp + 2) = sourcePort
      · simp only [hdest, if_true, Reading.within_bind, Reading.bind_value, within_address,
          within_ntohs, Reading.within_pure, Reading.pure_value, Option.mem_def, Option.some.injEq,
          forall_eq', true_implies, and_true]
        constructor
        · rintro ⟨⟨-, hprotocol, hports, hdests, hwithin, -, hdaddr, -⟩, hpayload⟩
          exact ⟨hprotocol, hports, hdests, hdaddr,
            (acceptDatagram_fits_iff rfl rfl).mp ⟨hwithin, hpayload⟩⟩
        · rintro ⟨hprotocol, hports, hdests, hdaddr, hfits⟩
          exact ⟨⟨by omega, hprotocol, hports, hdests, within_acceptDatagram.mpr hfits.1, by omega,
            hdaddr, by omega⟩, ((acceptDatagram_fits_iff rfl rfl).mpr hfits).2⟩
      · simp [hdest]
        omega
    · simp [hsource]
      omega
  · simp [hproto]
    omega

/-- Here the address fields are not read, and neither is the protocol. -/
theorem receiveUdp_fits_iff :
    (receiveUdp buffer).Within n ∧
      (∀ accepted ∈ (receiveUdp buffer).value, accepted.PrintsPayload buffer n) ↔
      Reader.udp.Fits buffer n := by
  simp only [receiveUdp, Reader.Fits, Reading.within_bind, Reading.bind_value, within_ntohs,
    ntohs_value, within_ihl, ihl_value]
  generalize headerLen buffer 0 = udp
  by_cases hsource : port buffer udp = serverPort
  · simp only [hsource, if_true, Reading.within_bind, Reading.bind_value, Reading.within_pure,
      Reading.pure_value, Option.mem_def, Option.some.injEq, forall_eq', true_implies, and_true]
    rw [and_assoc, and_assoc, acceptDatagram_fits_iff rfl rfl]
  · simp [hsource]

theorem Reader.inside_iff_fits (reader : Reader) :
    reader.Inside buffer n ↔ reader.Fits buffer n := by
  cases reader with
  | sniffer =>
    simp only [Reader.Inside, Reader.receive, Reader.Fits, processPacket_within_iff,
      Reading.within_pure, Reading.pure_value, Option.mem_def, reduceCtorEq, false_implies,
      implies_true, true_implies, and_true]
  | packet =>
    simp only [Reader.Inside, Reader.receive, Reader.Fits, receivePacket, reduceCtorEq,
      false_implies, true_and]
    by_cases hether : hProto buffer = ethPIp
    · simp only [hether, if_true, true_implies]
      exact receiveIp_fits_iff
    · simp [hether]
  | ipUdp =>
    simp only [Reader.Inside, reduceCtorEq, false_implies, true_and]
    exact receiveIp_fits_iff
  | udp =>
    simp only [Reader.Inside, reduceCtorEq, false_implies, true_and]
    exact receiveUdp_fits_iff

/-! ### The receive loops -/

/-- The buffer after each `recvfrom` of the loop, with the number of bytes received. A
client leaves its loop when it has accepted a packet; the sniffer goes on. -/
def rounds (reader : Reader) : Buffer → List (List UInt8) → List (Buffer × ℕ)
  | _, [] => []
  | buffer, packet :: packets =>
    let received := recvfrom reader.size packet buffer
    (received, (packet.take reader.size).length) ::
      if (reader.receive received).value.isSome then [] else rounds reader received packets

/-- Whatever is in the buffer at the start and whatever packets arrive: the reader stays
inside what it has received, in all rounds of its loop, exactly if every packet fits. -/
theorem rounds_inside_iff (reader : Reader) (buffer : Buffer) (packets : List (List UInt8)) :
    (∀ round ∈ rounds reader buffer packets, reader.Inside round.1 round.2) ↔
      ∀ round ∈ rounds reader buffer packets, reader.Fits round.1 round.2 :=
  forall₂_congr fun _ _ => reader.inside_iff_fits

/-- An IP header for UDP of `size` bytes in all, from and to 127.0.0.1. -/
def loopbackHeader (size : UInt8) : List UInt8 :=
  [0x45, 0, 0, size, 0, 0, 0, 0, 64, 17, 0, 0, 127, 0, 0, 1, 127, 0, 0, 1]

/-- The sniffer with a header and no datagram, and a client with a datagram from port 10200
to port 888 that gives its length as 4. -/
theorem not_inside :
    ¬ (∀ round ∈ rounds .sniffer (fun _ => 0) [loopbackHeader 20],
      Reader.sniffer.Inside round.1 round.2) ∧
    ¬ ∀ round ∈ rounds .ipUdp (fun _ => 0)
        [loopbackHeader 28 ++ [0x27, 0xD8, 0x03, 0x78, 0, 4, 0, 0]],
      Reader.ipUdp.Inside round.1 round.2 := by
  constructor
  · intro h
    obtain ⟨-, hfits⟩ := Reader.sniffer.inside_iff_fits.mp (h _ List.mem_cons_self)
    obtain ⟨-, hdatagram⟩ := hfits rfl
    exact absurd hdatagram (by decide)
  · intro h
    obtain ⟨-, hfits⟩ := Reader.ipUdp.inside_iff_fits.mp (h _ List.mem_cons_self)
    obtain ⟨-, hsource⟩ := hfits rfl
    obtain ⟨-, hdest⟩ := hsource rfl
    obtain ⟨-, -, hlength, -⟩ := hdest rfl
    exact absurd hlength (by decide)

end UnixLessons.RawSockets

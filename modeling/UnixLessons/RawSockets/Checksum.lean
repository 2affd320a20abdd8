import Mathlib.Data.List.Range
import UnixLessons.Checksum.OnesComplement

/-!
# The checksums of the raw packets

The raw client fills in the checksums of the IP and of the UDP header itself. Both are
complements of the one's complement sum of 16-bit words, as a little-endian host loads
them; the two functions add up their words and fold in the carries in different ways.

## Main results

* `ipChecksum_eq`, `bufferChecksum_eq`: both are the complement of the one's complement sum
* `checksum_verifies`: with the checksum in its field the receiver's sum is all ones
* `storeCheck_ne_zero_iff`: for which datagrams the client sends the checksum zero, which
  to the receiver means that there is none
-/

namespace UnixLessons.RawSockets

open Checksum

/-! ### Words in memory -/

/-- The word that two bytes in memory are. -/
def word (lo hi : UInt8) : UInt16 := lo.toUInt16 + hi.toUInt16 * 256

/-- The words of a sequence of bytes; an odd last byte counts as a low byte. -/
def words : List UInt8 → List UInt16
  | lo :: hi :: rest => word lo hi :: words rest
  | [b] => [b.toUInt16]
  | [] => []

/-- The two bytes of a word in memory. -/
def bytes16 (x : UInt16) : List UInt8 := [x.toUInt8, (x >>> 8).toUInt8]

def bytes32 (x : UInt32) : List UInt8 :=
  [x.toUInt8, (x >>> 8).toUInt8, (x >>> 16).toUInt8, (x >>> 24).toUInt8]

def htons (x : UInt16) : UInt16 := (x <<< 8) ||| (x >>> 8)

/-! ### The functions -/

/-- The loop of `ip_checksum` and what it does with an odd last byte. -/
def sumBuffer : List UInt8 → UInt64 → UInt64
  | lo :: hi :: rest, sum => sumBuffer rest (sum + (word lo hi).toUInt64)
  | [b], sum => sum + b.toUInt64
  | [], sum => sum

/-- `ip_checksum` of the bytes it is given. -/
def ipChecksum (buffer : List UInt8) : UInt16 :=
  let sum := sumBuffer buffer 0
  let sum := (sum >>> 16) + (sum &&& (0xFFFF : UInt64))
  let sum := sum + (sum >>> 16)
  (~~~sum).toUInt16

theorem toNat_shift (sum : UInt64) : (sum >>> 16).toNat = sum.toNat / 65536 := by
  simp [Nat.shiftRight_eq_div_pow]

theorem toNat_low (sum : UInt64) : (sum &&& (0xFFFF : UInt64)).toNat = sum.toNat % 65536 := by
  rw [UInt64.toNat_and]
  exact Nat.and_two_pow_sub_one_eq_mod sum.toNat 16

/-- The sum of the two parts does not overflow. -/
theorem toNat_fold (sum : UInt64) :
    ((sum &&& (0xFFFF : UInt64)) + (sum >>> 16)).toNat = foldCarry 65536 sum.toNat := by
  have hlt := sum.toNat_lt
  rw [UInt64.toNat_add, toNat_low, toNat_shift, foldCarry, Nat.mod_eq_of_lt (by omega)]

theorem shift_eq_zero_iff (sum : UInt64) : sum >>> 16 = 0 ↔ sum.toNat < 65536 := by
  rw [← UInt64.toNat_inj, toNat_shift]
  have hzero : (0 : UInt64).toNat = 0 := rfl
  rw [hzero]
  omega

/-- The last loop of `udp_checksum`. -/
def foldSum (sum : UInt64) : UInt64 :=
  if sum >>> 16 ≠ 0 then foldSum ((sum &&& (0xFFFF : UInt64)) + (sum >>> 16)) else sum
termination_by sum.toNat
decreasing_by
  rename_i hcarry
  rw [Ne, shift_eq_zero_iff, not_lt] at hcarry
  rw [toNat_fold]
  exact foldCarry_lt (by decide) hcarry

/-- Word `i` of a buffer. -/
def ptr (buf : List UInt8) (i : ℕ) : UInt16 := word (buf.getD (2 * i) 0) (buf.getD (2 * i + 1) 0)

/-- The loop of `udp_checksum` over the words, and the odd last byte. -/
def sumWords (buf : List UInt8) (sum : UInt64) : UInt64 :=
  let offset := buf.length
  let sum := (List.range (offset / 2)).foldl (fun sum i => sum + (ptr buf i).toUInt64) sum
  if offset % 2 ≠ 0 then sum + (buf.getD (offset - 1) 0).toUInt64 else sum

/-- What `udp_checksum` computes from the bytes it has put together. -/
def bufferChecksum (buf : List UInt8) : UInt16 := (~~~foldSum (sumWords buf 0)).toUInt16

/-- Size of the buffers. -/
def buffSize : ℕ := 1024

structure Udphdr where
  source : UInt16
  dest : UInt16
  len : UInt16
  check : UInt16
deriving DecidableEq

def Udphdr.bytes (udp : Udphdr) : List UInt8 :=
  bytes16 udp.source ++ bytes16 udp.dest ++ bytes16 udp.len ++ bytes16 udp.check

/-- `IPPROTO_UDP`. -/
def ipprotoUdp : UInt8 := 17

/-- The pseudo-header for `dataLen` bytes of data. -/
def pseudoHeader (saddr daddr : UInt32) (dataLen : ℕ) : List UInt8 :=
  bytes32 saddr ++ bytes32 daddr ++ [0, ipprotoUdp] ++ bytes16 (htons (UInt16.ofNat (8 + dataLen)))

/-- What `udp_checksum` puts together in its buffer. -/
def udpBuffer (saddr daddr : UInt32) (udp : Udphdr) (data : List UInt8) : List UInt8 :=
  pseudoHeader saddr daddr data.length ++ udp.bytes ++ data

/-- `udp_checksum`; it fails if the data do not fit the buffer. -/
def udpChecksum (saddr daddr : UInt32) (udp : Udphdr) (data : List UInt8) : Option UInt16 :=
  let buf := udpBuffer saddr daddr udp data
  if buf.length ≤ buffSize then some (bufferChecksum buf) else none

/-! ### Sums of words -/

variable {bytes before after : List UInt8} {sum : UInt64} {lo hi b : UInt8}

/-- The plain sum of the words. -/
def wordSum (bytes : List UInt8) : ℕ := ((words bytes).map UInt16.toNat).sum

/-- The one's complement sum of the words. -/
def onesComplementSum (bytes : List UInt8) : ℕ := onesSum 65536 ((words bytes).map UInt16.toNat)

theorem onesComplementSum_eq (bytes : List UInt8) :
    onesComplementSum bytes = residue 65536 (wordSum bytes) := by
  apply onesSum_eq_residue (by decide)
  intro x hx
  obtain ⟨w, -, rfl⟩ := List.mem_map.mp hx
  exact w.toNat_lt

theorem wordSum_cons (lo hi : UInt8) (bytes : List UInt8) :
    wordSum (lo :: hi :: bytes) = (word lo hi).toNat + wordSum bytes := by
  simp [wordSum, words]

/-- Words are counted from the front, so a part of even length can be split off. -/
theorem wordSum_append (heven : 2 ∣ before.length) :
    wordSum (before ++ after) = wordSum before + wordSum after := by
  induction before using words.induct with
  | case1 lo hi rest ih =>
    have hrest : 2 ∣ rest.length := by
      rw [List.length_cons, List.length_cons] at heven
      omega
    rw [List.cons_append, List.cons_append, wordSum_cons, wordSum_cons, ih hrest, Nat.add_assoc]
  | case2 b =>
    -- one byte is no part of even length
    simp at heven
  | case3 => simp [wordSum, words]

theorem wordSum_le (bytes : List UInt8) : wordSum bytes ≤ 65535 * ((bytes.length + 1) / 2) := by
  induction bytes using words.induct with
  | case1 lo hi rest ih =>
    have hword := (word lo hi).toNat_lt
    rw [wordSum_cons, List.length_cons, List.length_cons]
    omega
  | case2 b =>
    have hbyte := b.toNat_lt
    simp [wordSum, words]
    omega
  | case3 => simp [wordSum, words]

theorem word_bytes16 (x : UInt16) : words (bytes16 x) = [x] := by
  have hword : word x.toUInt8 (x >>> 8).toUInt8 = x := by
    have hlt := x.toNat_lt
    rw [← UInt16.toNat_inj]
    simp [word, Nat.shiftRight_eq_div_pow]
    omega
  rw [bytes16, words, words, hword]

/-- The loop of `ip_checksum` adds up the words. -/
theorem toNat_sumBuffer (h : sum.toNat + wordSum bytes < 2 ^ 64) :
    (sumBuffer bytes sum).toNat = sum.toNat + wordSum bytes := by
  induction bytes, sum using sumBuffer.induct with
  | case1 lo hi rest sum ih =>
    rw [wordSum_cons] at h ⊢
    have hadd : (sum + (word lo hi).toUInt64).toNat = sum.toNat + (word lo hi).toNat := by
      rw [UInt64.toNat_add, UInt16.toNat_toUInt64, Nat.mod_eq_of_lt (by omega)]
    rw [sumBuffer, ih (by rw [hadd]; omega), hadd, Nat.add_assoc]
  | case2 b sum =>
    simp only [wordSum, words, List.map_cons, List.map_nil, List.sum_cons, List.sum_nil,
      UInt8.toNat_toUInt16, Nat.add_zero] at h ⊢
    rw [sumBuffer, UInt64.toNat_add, UInt8.toNat_toUInt64, Nat.mod_eq_of_lt h]
  | case3 sum => simp [sumBuffer, wordSum, words]

/-! ### The two ways of summing and folding -/

theorem toNat_not_toUInt16 (sum : UInt64) :
    ((~~~sum).toUInt16).toNat = 65535 - sum.toNat % 65536 := by
  have hlt := sum.toNat_lt
  simp

/-- A value below 65536 and its complement in 16 bits. -/
theorem not_toUInt16_eq {n : ℕ} (h : sum.toNat % 65536 = n) :
    (~~~sum).toUInt16 = ~~~UInt16.ofNat n := by
  have hlt : n < 65536 := h ▸ Nat.mod_lt _ (by decide)
  rw [← UInt16.toNat_inj, toNat_not_toUInt16, h, UInt16.toNat_not, UInt16.toNat_ofNat',
    Nat.mod_eq_of_lt hlt]
  rfl

/-- At most one carry is left after the first fold of so few words. -/
theorem ipChecksum_eq (h : bytes.length ≤ 65535) :
    ipChecksum bytes = ~~~UInt16.ofNat (onesComplementSum bytes) := by
  have hle := wordSum_le bytes
  have hsum : (sumBuffer bytes 0).toNat = wordSum bytes := by
    rw [toNat_sumBuffer]
    · exact Nat.zero_add _
    · rw [UInt64.toNat_zero]
      omega
  have hfirst : ((sumBuffer bytes 0 >>> 16) + (sumBuffer bytes 0 &&& (0xFFFF : UInt64))).toNat =
      foldCarry 65536 (wordSum bytes) := by
    rw [UInt64.add_comm, toNat_fold, hsum]
  have hsmall : foldCarry 65536 (wordSum bytes) < 2 * 65536 - 1 := by
    rw [foldCarry]
    omega
  apply not_toUInt16_eq
  rw [UInt64.toNat_add, toNat_shift, hfirst, Nat.mod_mod_of_dvd _ (by decide),
    add_div_mod hsmall, residue_foldCarry (by decide), onesComplementSum_eq]

/-- The loop ends with the residue, whatever the sum. -/
theorem toNat_foldSum (sum : UInt64) : (foldSum sum).toNat = residue 65536 sum.toNat := by
  induction sum using foldSum.induct with
  | case1 sum hcarry ih =>
    rw [foldSum, if_pos hcarry, ih, toNat_fold, residue_foldCarry (by decide)]
  | case2 sum hcarry =>
    rw [foldSum, if_neg hcarry]
    rw [not_not, shift_eq_zero_iff] at hcarry
    rw [residue_of_lt hcarry]

theorem ptr_succ (lo hi : UInt8) (buf : List UInt8) (i : ℕ) :
    ptr (lo :: hi :: buf) (i + 1) = ptr buf i := by
  have hlow : 2 * (i + 1) = 2 * i + 1 + 1 := by omega
  rw [ptr, hlow, List.getD_cons_succ, List.getD_cons_succ, List.getD_cons_succ,
    List.getD_cons_succ, ptr]

/-- The loop of `udp_checksum` adds up the words too. -/
theorem toNat_sumWords (h : sum.toNat + wordSum bytes < 2 ^ 64) :
    (sumWords bytes sum).toNat = sum.toNat + wordSum bytes := by
  induction bytes using words.induct generalizing sum with
  | case1 lo hi rest ih =>
    rw [wordSum_cons] at h ⊢
    have hadd : (sum + (word lo hi).toUInt64).toNat = sum.toNat + (word lo hi).toNat := by
      rw [UInt64.toNat_add, UInt16.toNat_toUInt64, Nat.mod_eq_of_lt (by omega)]
    -- the first round takes the first two bytes, and the rest is the sum of the others
    have hround : sumWords (lo :: hi :: rest) sum =
        sumWords rest (sum + (word lo hi).toUInt64) := by
      have hhalf : (lo :: hi :: rest).length / 2 = rest.length / 2 + 1 := by
        rw [List.length_cons, List.length_cons]
        omega
      have hodd : (lo :: hi :: rest).length % 2 = rest.length % 2 := by
        rw [List.length_cons, List.length_cons]
        omega
      have hfirst : ptr (lo :: hi :: rest) 0 = word lo hi := rfl
      rw [sumWords, sumWords, hhalf, hodd, List.range_succ_eq_map, List.foldl_cons, List.foldl_map]
      simp only [Nat.succ_eq_add_one, ptr_succ, hfirst]
      split
      · obtain ⟨b, rest, rfl⟩ := List.exists_cons_of_length_pos (l := rest) (by omega)
        rfl
      · rfl
    rw [hround, ih (by rw [hadd]; omega), hadd, Nat.add_assoc]
  | case2 b =>
    simp only [wordSum, words, List.map_cons, List.map_nil, List.sum_cons, List.sum_nil,
      UInt8.toNat_toUInt16, Nat.add_zero] at h ⊢
    have hround : sumWords [b] sum = sum + b.toUInt64 := by simp [sumWords]
    rw [hround, UInt64.toNat_add, UInt8.toNat_toUInt64, Nat.mod_eq_of_lt h]
  | case3 => simp [sumWords, wordSum, words]

theorem bufferChecksum_eq (h : bytes.length ≤ 65535) :
    bufferChecksum bytes = ~~~UInt16.ofNat (onesComplementSum bytes) := by
  have hle := wordSum_le bytes
  have hsum : (sumWords bytes 0).toNat = wordSum bytes := by
    rw [toNat_sumWords]
    · exact Nat.zero_add _
    · rw [UInt64.toNat_zero]
      omega
  apply not_toUInt16_eq
  rw [toNat_foldSum, hsum, onesComplementSum_eq, Nat.mod_eq_of_lt (residue_lt (by decide) _)]

/-! ### The receiver's sum -/

/-- A word that is zero does not count. -/
theorem wordSum_field (heven : 2 ∣ before.length) (x : UInt16) :
    wordSum (before ++ bytes16 x ++ after) = wordSum (before ++ [0, 0] ++ after) + x.toNat := by
  have hfield : ∀ y : UInt16, wordSum (before ++ bytes16 y ++ after) =
      wordSum before + y.toNat + wordSum after := by
    intro y
    rw [wordSum_append (by rw [List.length_append]; exact Nat.dvd_add heven (by simp [bytes16])),
      wordSum_append heven]
    simp [wordSum, word_bytes16]
  have hzero := hfield 0
  rw [show bytes16 0 = [0, 0] from rfl, UInt16.toNat_zero] at hzero
  rw [hfield x, hzero]
  omega

/-- With the checksum stored in a field that was zero, the sum is all ones. -/
theorem onesComplementSum_field {x : UInt16} (heven : 2 ∣ before.length)
    (hx : x = ~~~UInt16.ofNat (onesComplementSum (before ++ [0, 0] ++ after))) :
    onesComplementSum (before ++ bytes16 x ++ after) = 0xFFFF := by
  rw [onesComplementSum_eq, wordSum_field heven]
  rw [onesComplementSum_eq] at hx
  generalize wordSum (before ++ [0, 0] ++ after) = n at hx ⊢
  have hlt := residue_lt (B := 65536) (by decide) n
  have hvalue : x.toNat = 65535 - residue 65536 n := by
    rw [hx, UInt16.toNat_not, UInt16.toNat_ofNat', Nat.mod_eq_of_lt hlt]
    rfl
  -- the sum is a positive multiple of 65535
  apply (residue_eq_pred_iff (by decide)).mpr
  obtain ⟨k, hk⟩ := exists_residue 65536 n
  constructor
  · intro hzero
    have hn : n = 0 := by omega
    rw [hn, residue_zero] at hvalue
    omega
  · exact ⟨k + 1, by omega⟩

/-- For every sequence of at most 65535 bytes both functions compute the complement of the
one's complement sum of the words. If a word of the sequence was zero then, with the
checksum in its place, the sum is `0xFFFF`; and so it is for every datagram that fits the
buffer of `udp_checksum`. -/
theorem checksum_verifies (h : bytes.length ≤ 65535) :
    ipChecksum bytes = ~~~UInt16.ofNat (onesComplementSum bytes) ∧
    bufferChecksum bytes = ~~~UInt16.ofNat (onesComplementSum bytes) ∧
    (∀ before after, bytes = before ++ [0, 0] ++ after → 2 ∣ before.length →
      onesComplementSum (before ++ bytes16 (ipChecksum bytes) ++ after) = 0xFFFF) ∧
    ∀ saddr daddr udp data, udp.check = 0 → bytes = udpBuffer saddr daddr udp data →
      bytes.length ≤ buffSize → ∃ check, udpChecksum saddr daddr udp data = some check ∧
        check = bufferChecksum bytes ∧
        onesComplementSum (udpBuffer saddr daddr { udp with check } data) = 0xFFFF := by
  refine ⟨ipChecksum_eq h, bufferChecksum_eq h, ?_, ?_⟩
  · rintro before after rfl heven
    exact onesComplementSum_field heven (ipChecksum_eq h)
  · rintro saddr daddr udp data hcheck rfl hfits
    refine ⟨_, if_pos hfits, rfl, ?_⟩
    -- the checksum is the tenth word of the buffer
    have hfield : ∀ check : UInt16, udpBuffer saddr daddr { udp with check } data =
        pseudoHeader saddr daddr data.length ++ (bytes16 udp.source ++ bytes16 udp.dest ++
          bytes16 udp.len) ++ bytes16 check ++ data := by
      intro check
      simp [udpBuffer, Udphdr.bytes, List.append_assoc]
    have hzero : udpBuffer saddr daddr udp data =
        pseudoHeader saddr daddr data.length ++ (bytes16 udp.source ++ bytes16 udp.dest ++
          bytes16 udp.len) ++ [0, 0] ++ data := by
      have hudp : udp = { udp with check := 0 } := by rw [← hcheck]
      rw [hudp, hfield]
      rfl
    rw [hfield]
    refine onesComplementSum_field ?_ ?_
    · simp [pseudoHeader, bytes16, bytes32]
    · rw [← hzero]
      exact bufferChecksum_eq h

/-- The IP header that `main` builds for its message, with nothing in the field yet. -/
def ipHeader (saddr daddr : UInt32) (dataLen : ℕ) : List UInt8 :=
  [0x45, 0] ++ bytes16 (htons (UInt16.ofNat (28 + dataLen))) ++ bytes16 (htons 1010) ++
    [0, 0, 64, ipprotoUdp] ++ [0, 0] ++ (bytes32 saddr ++ bytes32 daddr)

/-- `inet_addr("192.168.0.178")` and `inet_addr("192.168.0.158")`. -/
def mainSaddr : UInt32 := 0xB200A8C0
def mainDaddr : UInt32 := 0x9E00A8C0

/-- The header of `main` for "Hello!". -/
theorem checksum_verifies_header :
    onesComplementSum ([0x45, 0, 0, 34, 3, 242, 0, 0, 64, 17] ++
      bytes16 (ipChecksum (ipHeader mainSaddr mainDaddr 6)) ++
      (bytes32 mainSaddr ++ bytes32 mainDaddr)) = 0xFFFF :=
  (@checksum_verifies (ipHeader mainSaddr mainDaddr 6) (by decide)).2.2.1 _ _ rfl (by decide)

/-! ### The checksum zero -/

/-- What `main` sends: the header with the value of `udp_checksum` in it. -/
def storeCheck (saddr daddr : UInt32) (udp : Udphdr) (data : List UInt8) : Option Udphdr :=
  (udpChecksum saddr daddr udp data).map fun check => { udp with check }

/-- The protocol number is one of the words. -/
theorem wordSum_udpBuffer_pos (saddr daddr : UInt32) (udp : Udphdr) (data : List UInt8) :
    0 < wordSum (udpBuffer saddr daddr udp data) := by
  have hproto : wordSum [0, ipprotoUdp] = 4352 := rfl
  have hbuffer : udpBuffer saddr daddr udp data = (bytes32 saddr ++ bytes32 daddr) ++
      ([0, ipprotoUdp] ++ (bytes16 (htons (UInt16.ofNat (8 + data.length))) ++ udp.bytes ++
        data)) := by
    simp [udpBuffer, pseudoHeader, List.append_assoc]
  have haddresses : 2 ∣ (bytes32 saddr ++ bytes32 daddr).length := by simp [bytes32]
  have heven : 2 ∣ [0, ipprotoUdp].length := by decide
  rw [hbuffer, wordSum_append haddresses, wordSum_append heven, hproto]
  omega

/-- The complement is zero if the sum is all ones. -/
theorem bufferChecksum_eq_zero_iff (h : bytes.length ≤ 65535) (hpos : 0 < wordSum bytes) :
    bufferChecksum bytes = 0 ↔ 65535 ∣ wordSum bytes := by
  have hlt := residue_lt (B := 65536) (by decide) (wordSum bytes)
  have hones : residue 65536 (wordSum bytes) = 65535 ↔ wordSum bytes ≠ 0 ∧ 65535 ∣ wordSum bytes :=
    residue_eq_pred_iff (by decide)
  -- the sum itself is not zero, so only its complement can be
  rw [bufferChecksum_eq h, onesComplementSum_eq, ← UInt16.toNat_inj, UInt16.toNat_not,
    UInt16.toNat_ofNat', Nat.mod_eq_of_lt hlt]
  change 65535 - _ = 0 ↔ _
  omega

theorem storeCheck_eq {saddr daddr : UInt32} {udp : Udphdr} {data : List UInt8}
    (hfits : (udpBuffer saddr daddr udp data).length ≤ buffSize) :
    storeCheck saddr daddr udp data =
      some { udp with check := bufferChecksum (udpBuffer saddr daddr udp data) } := by
  rw [storeCheck, udpChecksum, if_pos hfits, Option.map_some]

/-- For all addresses, headers and payloads that fit the buffer: `main` sends a checksum
other than zero exactly if the words of pseudo-header, header and payload do not add up to
a multiple of 65535. -/
theorem storeCheck_ne_zero_iff (saddr daddr : UInt32) (udp : Udphdr) (data : List UInt8)
    (hfits : (udpBuffer saddr daddr udp data).length ≤ buffSize) :
    (∃ sent, storeCheck saddr daddr udp data = some sent ∧ sent.check ≠ 0) ↔
      ¬ 65535 ∣ wordSum (udpBuffer saddr daddr udp data) := by
  have hzero := bufferChecksum_eq_zero_iff (le_trans hfits (by decide))
    (wordSum_udpBuffer_pos saddr daddr udp data)
  rw [storeCheck_eq hfits, ← hzero]
  simp

/-- The ports and the length that `main` fills in for six bytes. -/
def mainUdphdr : Udphdr :=
  { source := htons 8888, dest := htons 10200, len := htons 14, check := 0 }

/-- "Hello!" -/
theorem storeCheck_ne_zero_iff_hello :
    ∃ sent, storeCheck mainSaddr mainDaddr mainUdphdr [72, 101, 108, 108, 111, 33] = some sent ∧
      sent.check ≠ 0 :=
  (storeCheck_ne_zero_iff mainSaddr mainDaddr mainUdphdr [72, 101, 108, 108, 111, 33]
    (by decide)).mpr (by decide)

/-- With the text "f f f`" in its place the checksum is zero. -/
theorem storeCheck_zero : ¬ ∀ (saddr daddr : UInt32) (udp : Udphdr) (data : List UInt8),
    udp.check = 0 → (udpBuffer saddr daddr udp data).length ≤ buffSize →
    ∃ sent, storeCheck saddr daddr udp data = some sent ∧ sent.check ≠ 0 := by
  intro h
  obtain ⟨sent, hsent, hcheck⟩ := h mainSaddr mainDaddr mainUdphdr [102, 32, 102, 32, 102, 96]
    rfl (by decide)
  rw [storeCheck_eq (by decide), Option.some.injEq] at hsent
  subst hsent
  exact hcheck ((bufferChecksum_eq_zero_iff (by decide) (by decide)).mpr (by decide))

end UnixLessons.RawSockets

import TockKernel.Net.OnesComplement
import TockKernel.Net.Stream
import TockKernel.ProcessTypes

/-!
# Transport checksums

A model of the packets of `capsules/extra/src/net/ipv6/ipv6.rs`, of the headers
of `udp/udp.rs` and `icmpv6/icmpv6.rs`, and of the checksums of
`ipv6/ip_utils.rs`. A function that panics, or that has not returned within its
fuel, is `none`; lengths are subtracted as in a build with overflow checks, and
encoders have room for what they write.
-/

namespace TockKernel.Net

open Arithmetic (Profile)
open OnesComplement
open Option (bind_eq_bind bind_eq_some_iff bind_some pure_def some)
open BitVec (ofNat toNat_inj toNat_ofNat)

/-- The words of a byte string; an odd one ends with a zero byte. -/
def wordsOf : List Byte → List (BitVec 16)
  | msb :: lsb :: rest => (msb ++ lsb) :: wordsOf rest
  | [msb] => [msb ++ (0 : Byte)]
  | [] => []

/-- What `u16_to_network_slice` writes. -/
def networkSlice (short : BitVec 16) : List Byte :=
  [short.extractLsb' 8 8, short.extractLsb' 0 8]

/-- What `decode_u16` finds in a buffer that is long enough. -/
def u16At (buf : List Byte) (off : ℕ) : BitVec 16 := buf.getD off 0 ++ buf.getD (off + 1) 0

/-- The fields that a checksum depends on, in network byte order. -/
structure IP6Header where
  payloadLen : BitVec 16
  nextHeader : Byte
  srcAddr : Vector Byte 16
  dstAddr : Vector Byte 16

variable (ip : IP6Header)

def IP6Header.addressWords : List (BitVec 16) :=
  wordsOf ip.srcAddr.toList ++ wordsOf ip.dstAddr.toList

/-! ## UDP -/

/-- The fields are in network byte order. -/
structure UDPHeader where
  srcPort : BitVec 16
  dstPort : BitVec 16
  len : BitVec 16
  cksum : BitVec 16

namespace UDPHeader

def getLen (udp : UDPHeader) : BitVec 16 := be16 udp.len

def getCksum (udp : UDPHeader) : BitVec 16 := be16 udp.cksum

def encode (udp : UDPHeader) : List Byte :=
  networkSlice udp.srcPort ++ networkSlice udp.dstPort ++ networkSlice udp.len ++
    networkSlice udp.cksum

def decode (buf : List Byte) : UDPHeader :=
  ⟨be16 (u16At buf 0), be16 (u16At buf 2), be16 (u16At buf 4), be16 (u16At buf 6)⟩

def words (ip : IP6Header) (udp : UDPHeader) (payload : List Byte) : List (BitVec 16) :=
  ip.addressWords ++ [udp.getLen, 17, be16 udp.srcPort, be16 udp.dstPort, udp.getLen] ++
    wordsOf payload

end UDPHeader

open UDPHeader

def computeUdpChecksum (udp : UDPHeader) (udpLength : BitVec 16)
    (payload : List Byte) : Option (BitVec 16) := do
  guard (8 ≤ udpLength.toNat ∧ udpLength.toNat - 8 ≤ payload.length)
  let sum := total (udp.words ip (payload.take (udpLength.toNat - 8))) + udp.getCksum.toNat
  return .ofNat 16 (0xffff - fold sum)

/-! ## ICMPv6 -/

inductive ICMP6HeaderOptions where
  | type1 (unused : BitVec 32)
  | type3 (unused : BitVec 32)
  | type128 (id seqno : BitVec 16)
  | type129 (id seqno : BitVec 16)

structure ICMP6Header where
  code : Byte
  cksum : BitVec 16
  options : ICMP6HeaderOptions
  len : BitVec 16

namespace ICMP6Header

def getTypeAsInt (icmp : ICMP6Header) : Byte :=
  match icmp.options with
  | .type1 _ => 1
  | .type3 _ => 3
  | .type128 _ _ => 128
  | .type129 _ _ => 129

def encode (icmp : ICMP6Header) : List Byte :=
  [icmp.getTypeAsInt, icmp.code] ++ networkSlice icmp.cksum ++
    match icmp.options with
    | .type1 unused | .type3 unused =>
      networkSlice (unused.extractLsb' 16 16) ++ networkSlice (unused.extractLsb' 0 16)
    | .type128 id seqno | .type129 id seqno => networkSlice id ++ networkSlice seqno

/-- The sequence number is read from where the identifier is. -/
def decodeOptions (type : Byte) (buf : List Byte) : Option ICMP6HeaderOptions :=
  let unused := be32 (u16At buf 4 ++ u16At buf 6)
  let id := be16 (u16At buf 4)
  if type = 1 then some (.type1 unused)
  else if type = 3 then some (.type3 unused)
  else if type = 128 then some (.type128 id id)
  else if type = 129 then some (.type129 id id)
  else none

def decode (buf : List Byte) : Option ICMP6Header :=
  (decodeOptions (buf.getD 0 0) buf).map fun options =>
    ⟨buf.getD 1 0, be16 (u16At buf 2), options, 0⟩

def optionWords (icmp : ICMP6Header) : List (BitVec 16) :=
  match icmp.options with
  | .type1 unused | .type3 unused => [unused.extractLsb' 16 16, unused.extractLsb' 0 16]
  | .type128 id seqno | .type129 id seqno => [id, seqno]

def words (ip : IP6Header) (length : BitVec 16) (icmp : ICMP6Header)
    (payload : List Byte) : List (BitVec 16) :=
  ip.addressWords ++ [length, ip.nextHeader.setWidth 16, icmp.getTypeAsInt ++ icmp.code] ++
    icmp.optionWords ++ wordsOf payload

end ICMP6Header

/-- The loop that is to add the carries, with `sum += sum_upper + sum_lower`. -/
def carryOverflow (profile : Profile) : ℕ → ℕ → Option ℕ
  | 0, _ => none
  | fuel + 1, sum =>
    if 0xffff < sum then do
      let carried ← (Arithmetic.add 32 profile sum (sum / 0x10000 + sum % 0x10000)).toOption
      carryOverflow profile fuel carried
    else
      some sum

/-- `compute_sum` reads a whole word at an odd end. The length in the pseudo
header is taken as it is stored. -/
def computeIcmpChecksum (profile : Profile) (fuel : ℕ) (ip : IP6Header)
    (icmp : ICMP6Header) (payload : List Byte) : Option (BitVec 16) := do
  guard (8 ≤ icmp.len.toNat)
  let payloadLen := icmp.len.toNat - 8 + icmp.len.toNat % 2
  guard (payloadLen ≤ payload.length)
  let sum ← carryOverflow profile fuel
    (total (icmp.words ip ip.payloadLen (payload.take payloadLen)))
  return .ofNat 16 (0xffff - sum)

/-! ## Packets -/

def checkTransportChecksum (profile : Profile) (fuel : ℕ) (ip : IP6Header)
    (buf : List Byte) : Option (Except ErrorCode Unit) :=
  let verdict (checksum : BitVec 16) : Except ErrorCode Unit :=
    if be16 checksum ≠ 0 then .error .fail else .ok ()
  if ip.nextHeader = 17 then do
    guard (8 ≤ buf.length)
    let checksum ← computeUdpChecksum ip (.decode buf) (.ofNat 16 buf.length) (buf.drop 8)
    return verdict checksum
  else if ip.nextHeader = 58 then do
    guard (8 ≤ buf.length)
    match ICMP6Header.decode buf with
    | some icmp =>
      let checksum ← computeIcmpChecksum profile fuel ip
        { icmp with len := .ofNat 16 buf.length } (buf.drop 8)
      return verdict checksum
    | none => return verdict 0xffff
  else
    return .error .nosupport

/-- A packet whose transport header is a UDP header. -/
structure IP6Packet where
  header : IP6Header
  udp : UDPHeader
  payload : List Byte

namespace IP6Packet

/-- The length is set in a copy of the header that is not kept. -/
def setPayload (packet : IP6Packet) (udp : UDPHeader) (payload : List Byte) : Option IP6Packet := do
  guard (payload.length ≤ packet.payload.length)
  return {
    header := { packet.header with
      nextHeader := 17
      payloadLen := be16 (.ofNat 16 (payload.length + 8)) }
    udp := udp
    payload := copyAt packet.payload 0 payload }

def setTransportChecksum (packet : IP6Packet) : Option IP6Packet := do
  let cksum ← computeUdpChecksum packet.header packet.udp packet.udp.getLen packet.payload
  return { packet with udp := { packet.udp with cksum := be16 cksum } }

def encode (packet : IP6Packet) : Option (List Byte) := do
  let len := packet.udp.getLen.toNat
  guard (8 ≤ len ∧ len - 8 ≤ packet.payload.length)
  return packet.udp.encode ++ packet.payload.take (len - 8)

end IP6Packet

theorem toNat_be16 (b : BitVec 16) : (be16 b).toNat = 256 * (b.toNat % 256) + b.toNat / 256 := by
  have hlow := (b.extractLsb' 8 8).isLt
  rw [be16, BitVec.toNat_append, ← Nat.shiftLeft_add_eq_or_of_lt hlow, Nat.shiftLeft_eq,
    BitVec.extractLsb'_toNat, BitVec.extractLsb'_toNat, Nat.shiftRight_zero]
  omega

/-! ## Checking a datagram -/

/-- The words of what has been received, with the pseudo header. -/
def receivedWords (buf : List Byte) : List (BitVec 16) :=
  ip.addressWords ++ [u16At buf 4, 17] ++ wordsOf buf

theorem be16_eq_zero_iff (b : BitVec 16) : be16 b = 0 ↔ b = 0 := by
  constructor
  · intro hzero
    rw [← be16_be16 b, hzero]
    rfl
  · rintro rfl
    rfl

theorem complement_inj (hm : m ≤ 0xffff) (hn : n ≤ 0xffff) :
    ofNat 16 (0xffff - m) = .ofNat 16 (0xffff - n) ↔ m = n := by
  rw [← toNat_inj, toNat_ofNat, toNat_ofNat, Nat.mod_eq_of_lt (by omega)]
  omega

theorem complement_eq_zero_iff (h : n ≤ 0xffff) : ofNat 16 (0xffff - n) = 0 ↔ n = 0xffff :=
  complement_inj h le_rfl

theorem wordsOf_eq_header {buf : List Byte} (h : 8 ≤ buf.length) :
    wordsOf buf = [u16At buf 0, u16At buf 2, u16At buf 4, u16At buf 6] ++ wordsOf (buf.drop 8) := by
  obtain ⟨b0, b1, b2, b3, b4, b5, b6, b7, rest, rfl⟩ : ∃ b0 b1 b2 b3 b4 b5 b6 b7 rest,
        buf = b0 :: b1 :: b2 :: b3 :: b4 :: b5 :: b6 :: b7 :: rest := by
    rcases buf with _ | ⟨b0, _ | ⟨b1, _ | ⟨b2, _ | ⟨b3, _ | ⟨b4, _ | ⟨b5, _ | ⟨b6,
      _ | ⟨b7, rest⟩⟩⟩⟩⟩⟩⟩⟩
    all_goals first
      | exact ⟨_, _, _, _, _, _, _, _, _, rfl⟩
      | simp at h
  rfl

theorem checkTransportChecksum_udp (profile : Profile) (fuel : ℕ) {ip : IP6Header}
    (hip : ip.nextHeader = 17) {buf : List Byte} (hlong : 8 ≤ buf.length)
    (hshort : buf.length < 2 ^ 16) : checkTransportChecksum profile fuel ip buf =
      some (if wordSum (receivedWords ip buf) = 0xffff then .ok ()
        else .error .fail) := by
  have hlen : (ofNat 16 buf.length).toNat = buf.length := by
    rw [toNat_ofNat, Nat.mod_eq_of_lt hshort]
  have hsum : wordSum (receivedWords ip buf) = residue (total (words ip (.decode buf)
        (buf.drop 8)) + (decode buf).getCksum.toNat) := by
    rw [wordSum_eq_residue, receivedWords, wordsOf_eq_header hlong]
    congr 1
    simp [words, decode, getLen, getCksum, be16_be16]
    omega
  unfold checkTransportChecksum computeUdpChecksum
  rw [hip, hlen]
  simp only [if_true, hlong, guard, List.length_drop, le_refl, and_self, hsum,
    fold_eq_residue, pure_def, bind_eq_bind, bind_some, be16_eq_zero_iff,
    complement_eq_zero_iff (residue_le _), ite_not]
  rw [List.take_of_length_le (by rw [List.length_drop])]

/-! ## Building a datagram -/

/-- The checksum of RFC 768, where zero means that there is none. -/
def udpChecksum (udp : UDPHeader) (payload : List Byte) : ℕ :=
  let checksum := 0xffff - wordSum (udp.words ip payload)
  if checksum = 0 then 0xffff else checksum

structure IP6Packet.Verifies (profile : Profile) (fuel : ℕ) (packet : IP6Packet)
    (payload : List Byte) : Prop where
  length : packet.udp.getLen.toNat = 8 + payload.length
  checksum : packet.udp.getCksum.toNat = udpChecksum packet.header packet.udp payload
  encoded : packet.encode = some (packet.udp.encode ++ payload)
  accepted : checkTransportChecksum profile fuel packet.header
    (packet.udp.encode ++ payload) = some (.ok ())
  rejected : ∀ buf, buf.length = 8 + payload.length → wordSum (receivedWords packet.header buf) ≠
      wordSum (receivedWords packet.header (packet.udp.encode ++ payload)) →
    checkTransportChecksum profile fuel packet.header buf = some (.error .fail)

section Datagram

variable {packet : IP6Packet} {udp : UDPHeader} {payload : List Byte} (ip : IP6Header)

/-- The header of a packet for the payload, with the checksum that is computed. -/
def checksummed (udp : UDPHeader) (payload : List Byte) : UDPHeader :=
  { udp with cksum := be16 (.ofNat 16 (0xffff -
    residue (total (udp.words ip payload) +
      udp.getCksum.toNat))) }

theorem length_encode (udp : UDPHeader) : udp.encode.length = 8 := rfl

/-- The address words and the payload, which the byte order does not touch. -/
def untouched (payload : List Byte) : ℕ :=
  total ip.addressWords + 17 + total (wordsOf payload)

theorem sum_words (udp : UDPHeader) (payload : List Byte) :
    total (udp.words ip payload) = untouched ip payload + (be16 udp.srcPort).toNat +
      (be16 udp.dstPort).toNat + 2 * (be16 udp.len).toNat := by
  simp [words, getLen, untouched]
  omega

theorem u16At_networkSlice (b : BitVec 16) (rest : List Byte) :
    u16At (networkSlice b ++ rest) 0 = b :=
  le16_append b

theorem sum_receivedWords (udp : UDPHeader) (payload : List Byte) :
    total (receivedWords ip (udp.encode ++ payload)) = untouched ip payload +
      udp.srcPort.toNat + udp.dstPort.toNat + 2 * udp.len.toNat + udp.cksum.toNat := by
  have hsrc : u16At (udp.encode ++ payload) 0 = udp.srcPort := u16At_networkSlice _ _
  have hdst : u16At (udp.encode ++ payload) 2 = udp.dstPort := u16At_networkSlice _ []
  have hlen : u16At (udp.encode ++ payload) 4 = udp.len := u16At_networkSlice _ []
  have hcksum : u16At (udp.encode ++ payload) 6 = udp.cksum := u16At_networkSlice _ []
  have hdrop : (udp.encode ++ payload).drop 8 = payload := List.drop_left' rfl
  rw [receivedWords, wordsOf_eq_header (by simp [length_encode]), hsrc, hdst, hlen, hcksum, hdrop]
  simp [untouched]
  omega

theorem setTransportChecksum_eq (packet : IP6Packet) (payload : List Byte)
    (hlen : packet.udp.getLen.toNat = 8 + payload.length)
    (hpayload : packet.payload.take payload.length = payload) :
    packet.setTransportChecksum = some { packet with
      udp := checksummed packet.header packet.udp payload } := by
  have hfits := congrArg List.length hpayload
  rw [List.length_take] at hfits
  simp only [IP6Packet.setTransportChecksum, computeUdpChecksum, hlen,
    Nat.add_sub_cancel_left, hpayload, fold_eq_residue]
  rw [guard, if_pos ⟨by omega, by omega⟩]
  rfl

/-- The header on the wire has the bytes of its fields swapped, the rest of the
packet has not. -/
theorem checksummed_accepted_iff (udp : UDPHeader)
    (payload : List Byte) (hcksum : udp.getCksum = 0 ∨ udp.getCksum = 0xffff) :
    wordSum (receivedWords ip ((checksummed ip udp payload).encode ++ payload)) = 0xffff ↔
      257 ∣ untouched ip payload := by
  have hpos : 0 < untouched ip payload := by
    rw [untouched]
    omega
  have hsrc := toNat_be16 udp.srcPort
  have hdst := toNat_be16 udp.dstPort
  have hlen := toNat_be16 udp.len
  have hwords := sum_words ip udp payload
  have hresidue : residue (total (udp.words ip payload) + udp.getCksum.toNat) =
        (total (udp.words ip payload) - 1) % 0xffff + 1 := by
    rw [residue_of_pos (by omega)]
    rcases hcksum with hzero | hmax
    · rw [hzero]
      rfl
    · rw [hmax, show (0xffff : BitVec 16).toNat = 0xffff from rfl]
      omega
  have hcomplement := toNat_be16 (.ofNat 16 (0xffff -
    ((total (udp.words ip payload) - 1) % 0xffff + 1)))
  have hsmall : 0xffff - ((total (udp.words ip payload) - 1) % 0xffff + 1) < 2 ^ 16 := by
    omega
  rw [toNat_ofNat, Nat.mod_eq_of_lt hsmall] at hcomplement
  rw [wordSum_eq_residue, residue_eq_max_iff (by rw [sum_receivedWords]; omega), sum_receivedWords]
  simp only [checksummed, hresidue]
  omega

theorem checksummed_eq_iff (udp : UDPHeader) (payload : List Byte) :
    (checksummed ip udp payload).getCksum.toNat = udpChecksum ip udp payload ↔
      (udp.getCksum = 0 ∨ udp.getCksum = 0xffff) ∧ wordSum (udp.words ip payload) ≠ 0xffff := by
  have hpos : 0 < total (udp.words ip payload) := by
    rw [sum_words, untouched]
    omega
  have hcksum : (udp.getCksum = 0 ∨ udp.getCksum = 0xffff) ↔
      udp.getCksum.toNat = 0 ∨ udp.getCksum.toNat = 0xffff := by
    rw [← toNat_inj, ← toNat_inj]
    rfl
  have hgiven := residue_of_pos
    (show 0 < total (udp.words ip payload) + udp.getCksum.toNat by omega)
  have hcomputed : (checksummed ip udp payload).getCksum.toNat = 0xffff -
      ((total (udp.words ip payload) + udp.getCksum.toNat - 1) % 0xffff + 1) := by
    rw [getCksum, checksummed, be16_be16, hgiven, toNat_ofNat, Nat.mod_eq_of_lt (by omega)]
  rw [hcksum, udpChecksum, wordSum_eq_residue, residue_of_pos hpos]
  split <;> omega

/-- The packet verifies exactly when the header that was given has the length
already and no checksum, the checksum is not the one that means none, and the
swapped bytes of the header make no difference. -/
theorem udp_packet_verifies_iff (profile : Profile) (fuel : ℕ)
    (hroom : payload.length ≤ packet.payload.length) (hshort : 8 + payload.length < 2 ^ 16) :
    (∃ filled built, packet.setPayload udp payload = some filled ∧
        filled.setTransportChecksum = some built ∧ built.Verifies profile fuel payload) ↔
      udp.getLen.toNat = 8 + payload.length ∧ (udp.getCksum = 0 ∨ udp.getCksum = 0xffff) ∧
        wordSum (udp.words packet.header payload) ≠ 0xffff ∧
        257 ∣ untouched packet.header payload := by
  let ip : IP6Header := { packet.header with
    nextHeader := 17
    payloadLen := be16 (.ofNat 16 (payload.length + 8)) }
  have hfilled : packet.setPayload udp payload =
      some ⟨ip, udp, copyAt packet.payload 0 payload⟩ := by
    rw [IP6Packet.setPayload, guard, if_pos hroom]
    rfl
  have htaken : (copyAt packet.payload 0 payload).take payload.length = payload := by
    have hend : (copyAt packet.payload 0 payload).take (0 + payload.length) =
        packet.payload.take 0 ++ payload := take_copyAt_end (Nat.zero_le _)
    rwa [Nat.zero_add] at hend
  have hbuilt := setTransportChecksum_eq ⟨ip, udp, copyAt packet.payload 0 payload⟩ payload
  have hencoded : ((checksummed ip udp payload).encode ++ payload).length = 8 + payload.length := by
    rw [List.length_append, length_encode]
  have hcheck : ∀ buf : List Byte, buf.length = 8 + payload.length →
      checkTransportChecksum profile fuel ip buf = some
        (if wordSum (receivedWords ip buf) = 0xffff then .ok ()
          else .error .fail) := fun buf hbuf =>
    checkTransportChecksum_udp profile fuel rfl (by omega) (by omega)
  constructor
  · rintro ⟨_, built, hfill, hset, hverifies⟩
    cases hfilled.symm.trans hfill
    have hlen : udp.getLen.toNat = 8 + payload.length := by
      obtain ⟨_, -, hkept⟩ := bind_eq_some_iff.1 hset
      obtain rfl := some.inj hkept
      exact hverifies.length
    obtain rfl := some.inj ((hbuilt hlen htaken).symm.trans hset)
    obtain ⟨hcksum, hsum⟩ := (checksummed_eq_iff ip udp payload).1 hverifies.checksum
    refine ⟨hlen, hcksum, hsum, (checksummed_accepted_iff ip udp payload hcksum).1 ?_⟩
    have haccepted := (hcheck _ hencoded).symm.trans hverifies.accepted
    by_contra hrejected
    rw [if_neg hrejected] at haccepted
    cases haccepted
  · rintro ⟨hlen, hcksum, hsum, htouched⟩
    have haccepted := (checksummed_accepted_iff ip udp payload hcksum).2 htouched
    refine ⟨_, _, hfilled, hbuilt hlen htaken, hlen,
      (checksummed_eq_iff ip udp payload).2 ⟨hcksum, hsum⟩, ?_, ?_, ?_⟩
    · have hkept : (checksummed ip udp payload).getLen.toNat = 8 + payload.length := hlen
      have hfits := congrArg List.length htaken
      rw [List.length_take] at hfits
      simp only [IP6Packet.encode, hkept, Nat.add_sub_cancel_left, htaken]
      rw [guard, if_pos ⟨by omega, by omega⟩]
      rfl
    · exact (hcheck _ hencoded).trans (congrArg some (if_pos haccepted))
    · intro buf hbuf haltered
      rw [hcheck buf hbuf, if_neg fun hsame => haltered (hsame.trans haccepted.symm)]

def sampleHeader (nextHeader : Byte) (length : BitVec 16) (last : BitVec 16) : IP6Header :=
  ⟨be16 length, nextHeader, .replicate 16 0, ⟨(.replicate 14 0 ++ networkSlice last).toArray, rfl⟩⟩

/-- Three bytes between the ports 53 and 1053. -/
theorem udp_packet_verifies_sample :
    ∃ filled built, IP6Packet.setPayload ⟨sampleHeader 17 0 242, ⟨0, 0, 0, 0⟩, [0, 0, 0]⟩
        ⟨be16 53, be16 1053, be16 11, 0⟩ [1, 2, 3] = some filled ∧
      filled.setTransportChecksum = some built ∧ built.Verifies .dev 0 [1, 2, 3] :=
  (udp_packet_verifies_iff .dev 0 (by decide) (by decide)).2 (by decide)

/-- The length of a new header stays as it is, and the checksum is computed over
bytes that the payload does not have. With the right length, the datagram is
rejected. -/
theorem udp_packet_rejected :
    (∃ filled, IP6Packet.setPayload ⟨sampleHeader 17 9 0, ⟨0, 0, 0, 0⟩, [0]⟩
        ⟨0, 0, 8, 0⟩ [1] = some filled ∧ filled.setTransportChecksum = none) ∧
      ∃ built buf, IP6Packet.setTransportChecksum
          ⟨sampleHeader 17 8 0, ⟨0, 0, be16 8, 0⟩, []⟩ = some built ∧ built.encode = some buf ∧
        checkTransportChecksum .dev 0 built.header buf = some (.error .fail) := by
  refine ⟨⟨_, rfl, by decide⟩, _, _, setTransportChecksum_eq _ [] rfl rfl, rfl, ?_⟩
  rw [checkTransportChecksum_udp _ _ rfl (by decide) (by decide), if_neg (by decide +kernel)]

end Datagram

/-! ## Messages of ICMPv6 -/

section Message

variable {profile : Profile} {ip : IP6Header} {icmp : ICMP6Header} {payload : List Byte}

end Message

end TockKernel.Net

import TockKernel.Net.Ieee802154

/-!
# The fields of an IEEE 802.15.4 header

What each field looks like on the wire, that its encoder writes just that, and
that its decoder reads it back.
-/

namespace TockKernel.Net

open Security AddressMode BitVec Header KeyIdMode

/-! ## Encoders with a fixed output -/

def Writes {α : Type*} (encoder : Encoder α) (bytes : List Byte) (out : α) : Prop :=
  ∀ room n result, encoder room = .done n result → n = bytes.length ∧ result = (bytes, out)

theorem writes_bytes (bs : List Byte) : Writes (encodeBytes bs) bs () := by
  rintro room n ⟨_, _⟩ h
  obtain ⟨rfl, rfl⟩ := encodeBytes_eq_done h
  exact ⟨rfl, rfl⟩

variable {β : Type*} {n : ℕ} {h : Header} {dropSrcPan panIdCompression : Bool}

theorem Writes.encTry {encoder : Encoder α} {bytes : List Byte} {a : α} (h : Writes encoder bytes a)
    {room off : ℕ} {next : ℕ → List Byte → α → SResult β} {out : β}
    (hdone : encTry room off encoder next = .done n out) :
    next (off + bytes.length) bytes a = .done n out := by
  obtain ⟨m, _, _, hencoder, hnext⟩ := encTry_eq_done hdone
  obtain ⟨rfl, heq⟩ := h _ _ _ hencoder
  cases heq
  exact hnext

def optionBytes {σ : Type*} (bytes : σ → List Byte) : Option σ → List Byte
  | none => []
  | some x => bytes x

theorem writes_option {encode : σ → Encoder Unit}
    {bytes : σ → List Byte} (h : ∀ x, Writes (encode x) (bytes x) ())
    (o : Option σ) : Writes (encodeOption encode o) (optionBytes bytes o) () := by
  cases o with
  | none =>
    rintro room n result ⟨⟩
    exact ⟨rfl, rfl⟩
  | some x => exact h x

/-! ## Little-endian words -/

def u16Bytes (b : BitVec 16) : List Byte :=
  [(be16 b).extractLsb' 8 8, (be16 b).extractLsb' 0 8]

def u32Bytes (b : BitVec 32) : List Byte :=
  [(be32 b).extractLsb' 24 8, (be32 b).extractLsb' 16 8,
    (be32 b).extractLsb' 8 8, (be32 b).extractLsb' 0 8]

section

variable (b : BitVec 16) (rest : List Byte) (next : ℕ → BitVec 16 → SResult β)
include b rest next

theorem decTry_u16Bytes : decTry (u16Bytes b ++ rest) 0 decodeU16 next = next 2 (be16 b) :=
  (decodes_u16 (be16 b)).decTry rest next

theorem decTry_u16 : (decTry (u16Bytes b ++ rest) 0 decodeU16 fun off be => next off (be16 be)) =
      next 2 b := by
  rw [decTry_u16Bytes, be16_be16]

end

/-! ## Addresses -/

def MacAddress.bytes : MacAddress → List Byte
  | .short addr => u16Bytes addr
  | .long addr => addr.toList.reverse

theorem MacAddress.writes (addr : MacAddress) : Writes addr.encode addr.bytes () := by
  cases addr with
  | short addr | long addr => exact writes_bytes _

theorem MacAddress.decodes (o : Option MacAddress) : Decodes (MacAddress.decode (ofAddress o))
      (optionBytes MacAddress.bytes o) o := by
  intro rest
  match o with
  | none => rfl
  | some (.short addr) =>
    exact decTry_u16 addr rest fun off addr =>
      .done off (some (MacAddress.short addr))
  | some (.long addr) =>
    exact (decodes_bytesBe addr).decTry rest fun off addr => .done off (some (MacAddress.long addr))

theorem decodes_pan (o : Option PanID) :
    Decodes (decodePan o.isSome) (optionBytes u16Bytes o) o := by
  intro rest
  cases o with
  | none => rfl
  | some pan => exact decTry_u16 pan rest fun off pan => .done off (some pan)

theorem ofAddress_ne_notPresent (o : Option MacAddress) :
    decide (ofAddress o ≠ .notPresent) = o.isSome := by
  match o with
  | none => rfl
  | some (.short _) => rfl
  | some (.long _) => rfl

section

variable (hcomp : h.compression = some (dropSrcPan, panIdCompression))
include hcomp

theorem Header.compression_spec :
    pansPresent h.version (ofAddress h.dstAddr) (ofAddress h.srcAddr) panIdCompression =
      (h.dstPan.isSome, (if dropSrcPan then none else h.srcPan).isSome, dropSrcPan) ∧
    (dropSrcPan → h.dstPan.isSome ∧ h.srcPan = h.dstPan) := by
  obtain ⟨_, _, _, version, _, dstPan, dstAddr, srcPan, srcAddr, _⟩ := h
  simp only [compression] at hcomp
  simp only [pansPresent, ofAddress_ne_notPresent]
  cases version <;> cases dstAddr <;> cases srcAddr <;> cases dstPan <;> cases srcPan <;> simp_all
  all_goals cases dropSrcPan <;> cases panIdCompression <;> simp_all

def Header.addressingBytes (h : Header) (dropSrcPan : Bool) : List Byte :=
  optionBytes u16Bytes h.dstPan ++ (optionBytes MacAddress.bytes h.dstAddr ++
      (optionBytes u16Bytes (if dropSrcPan then none else h.srcPan) ++
        optionBytes MacAddress.bytes h.srcAddr))

theorem Header.writes_addressing :
    Writes h.encodeAddressing (h.addressingBytes dropSrcPan) panIdCompression := by
  intro room n result hdone
  simp only [encodeAddressing, hcomp] at hdone
  have hpan : ∀ pan, Writes (encodePan pan) (u16Bytes pan) () := fun pan => writes_bytes _
  have hdone := (writes_option hpan _).encTry hdone
  have hdone := (writes_option MacAddress.writes _).encTry hdone
  have hdone := (writes_option hpan _).encTry hdone
  have hdone := (writes_option MacAddress.writes _).encTry hdone
  cases hdone
  constructor
  · simp only [addressingBytes, List.length_append]
    omega
  · simp [addressingBytes]

theorem Header.decodes_addressing : Decodes (decodeAddressing h.version (ofAddress h.dstAddr)
        (ofAddress h.srcAddr) panIdCompression) (h.addressingBytes dropSrcPan)
      ⟨h.dstPan, h.dstAddr, h.srcPan, h.srcAddr⟩ := by
  intro rest
  obtain ⟨hpresent, hdropped⟩ := compression_spec hcomp
  have h0 := Remaining.start (h.addressingBytes dropSrcPan ++ rest)
  simp only [addressingBytes, List.append_assoc] at h0
  have h1 := h0.advance
  have h2 := h1.advance
  have h3 := h2.advance
  have hsrc : (if !(if dropSrcPan then none else h.srcPan).isSome && dropSrcPan
      then h.dstPan else if dropSrcPan then none else h.srcPan) = h.srcPan := by
    cases dropSrcPan with
    | true => exact (hdropped rfl).2.symm
    | false => simp
  have hvalid : (!(if dropSrcPan then none else h.srcPan).isSome && dropSrcPan &&
      h.dstPan.isNone) = false := by
    cases dropSrcPan with
    | true => simp [(hdropped rfl).1]
    | false => simp
  simp only [decodeAddressing, hpresent, addressingBytes, List.append_assoc]
  rw [h0.decTry (decodes_pan _), h1.decTry (MacAddress.decodes _), h2.decTry (decodes_pan _),
    hvalid, hsrc, h3.decTry (MacAddress.decodes _)]
  simp [Nat.add_assoc]

end

/-! ## The auxiliary security header -/

def KeyId.bytes : KeyId → List Byte
  | .implicit => []
  | .index i => [i]
  | .source4Index src i => src.toList.reverse ++ [i]
  | .source8Index src i => src.toList.reverse ++ [i]

theorem KeyId.writes_source (src : Vector Byte n) (i : Byte) :
    Writes (KeyId.encodeSource src i) (src.toList.reverse ++ [i]) () := by
  intro room m result hdone
  have hdone := (writes_bytes src.toList.reverse).encTry hdone
  have hdone := (writes_bytes [i]).encTry hdone
  cases hdone
  exact ⟨by simp, rfl⟩

theorem KeyId.writes (keyId : KeyId) : Writes keyId.encode keyId.bytes () := by
  cases keyId with
  | implicit =>
    rintro room n result ⟨⟩
    exact ⟨rfl, rfl⟩
  | index i => exact writes_bytes _
  | source4Index src i | source8Index src i => exact KeyId.writes_source src i

theorem KeyId.decodes_source (make : Vector Byte n → Byte → KeyId)
    (src : Vector Byte n) (i : Byte) :
    Decodes (KeyId.decodeSource n make) (src.toList.reverse ++ [i]) (make src i) := by
  intro rest
  have h0 := Remaining.start ((src.toList.reverse ++ [i]) ++ rest)
  rw [List.append_assoc] at h0
  rw [KeyId.decodeSource, List.append_assoc, h0.decTry (decodes_bytesBe src),
    h0.advance.decTry (decodes_u8 i), List.length_append, Nat.zero_add]

theorem KeyId.decodes (keyId : KeyId) :
    Decodes (KeyId.decode (ofKeyId keyId)) keyId.bytes keyId := by
  intro rest
  cases keyId with
  | implicit => rfl
  | index i => rfl
  | source4Index src i => exact KeyId.decodes_source .source4Index src i rest
  | source8Index src i => exact KeyId.decodes_source .source8Index src i rest

def Security.bytes (s : Security) : List Byte :=
  s.scf :: (optionBytes u32Bytes s.frameCounter ++ s.keyId.bytes)

theorem Security.writes (s : Security) : Writes s.encode s.bytes () := by
  intro room n result hdone
  unfold encode at hdone
  split at hdone
  · cases hdone
  have hcounter : ∀ c, Writes (encodeU32 (be32 c)) (u32Bytes c) () := fun c => writes_bytes _
  have hdone := (writes_option hcounter _).encTry hdone
  have hdone := (KeyId.writes _).encTry hdone
  cases hdone
  constructor
  · simp only [bytes, List.length_cons, List.length_append]
    omega
  · rfl

def scfOf (level : SecurityLevel) (asnInNonce suppressed : Bool) (mode : KeyIdMode) : Byte :=
  setFlag suppressed 0x20 (setFlag asnInNonce 0x40 level.toU8) ||| mode.toU8

theorem scfOf_spec (level : SecurityLevel) (asnInNonce suppressed : Bool) (mode : KeyIdMode) :
    SecurityLevel.fromScf (scfOf level asnInNonce suppressed mode) = some level ∧
      decide (scfOf level asnInNonce suppressed mode &&& 0x40 ≠ 0) = asnInNonce ∧
      decide (scfOf level asnInNonce suppressed mode &&& 0x20 = 0) = !suppressed ∧
      fromScf (scfOf level asnInNonce suppressed mode) = mode := by
  cases level <;> cases asnInNonce <;> cases suppressed <;> cases mode <;> decide

theorem Security.scf_spec (s : Security) : SecurityLevel.fromScf s.scf = some s.level ∧
      decide (s.scf &&& 0x40 ≠ 0) = s.asnInNonce ∧
      decide (s.scf &&& 0x20 = 0) = s.frameCounter.isSome ∧ fromScf s.scf = ofKeyId s.keyId := by
  rw [← Option.not_isNone]
  exact scfOf_spec s.level s.asnInNonce s.frameCounter.isNone (ofKeyId s.keyId)

theorem Security.decodes_counter (counter : Option (BitVec 32)) :
    Decodes (decodeCounter counter.isSome) (optionBytes u32Bytes counter) counter := by
  intro rest
  cases counter with
  | none => rfl
  | some c =>
    have h := (decodes_u32 (be32 c)).decTry rest fun off c => SResult.done off (some (be32 c))
    rw [be32_be32] at h
    exact h

theorem Security.decodes (s : Security) : Decodes decode s.bytes s := by
  intro rest
  obtain ⟨hlevel, hasn, hcounter, hmode⟩ := s.scf_spec
  have h0 := Remaining.start (s.bytes ++ rest)
  rw [bytes, ← List.singleton_append, List.append_assoc, List.append_assoc] at h0
  have h1 := h0.advance
  rw [decode, bytes, ← List.singleton_append,
    List.append_assoc, List.append_assoc, h0.decTry (decodes_u8 s.scf)]
  simp only [hlevel, hasn, hcounter, hmode]
  rw [h1.decTry (decodes_counter _), h1.advance.decTry (KeyId.decodes _)]
  simp only [List.length_append, Nat.zero_add, Nat.add_assoc]

theorem decodes_security (o : Option Security) :
    Decodes (decodeSecurity o.isSome) (optionBytes bytes o) o := by
  intro rest
  cases o with
  | none => rfl
  | some s =>
    exact (decodes s).decTry rest fun off s => .done off (some s)

theorem decodes_seq (o : Option Byte) :
    Decodes (decodeSeq o.isNone) (optionBytes (fun b => [b]) o) o := by
  intro rest
  cases o with
  | none => rfl
  | some seq => exact (decodes_u8 seq).decTry rest fun off s => .done off (some s)

/-! ## The frame control field -/

section Flags

variable {w : ℕ} {x y mask : BitVec w} (b : Bool) (k : BitVec w)

theorem or_and_of_disjoint (h : y &&& k = 0) : (x ||| y) &&& k = x &&& k := by
  rw [and_or_distrib_right, h]
  exact or_zero

theorem setFlag_and_of_disjoint (h : mask &&& k = 0) : setFlag b mask x &&& k = x &&& k := by
  cases b with
  | true => exact or_and_of_disjoint k h
  | false => rfl

theorem setFlag_ushiftRight_of_lt {n : ℕ} (h : mask >>> n = 0) :
    setFlag b mask x >>> n = x >>> n := by
  cases b with
  | true =>
    rw [setFlag, if_pos rfl, ushiftRight_or_distrib, h]
    exact or_zero
  | false => rfl

theorem setFlag_and_self (hx : x &&& mask = 0) (hmask : mask ≠ 0) :
    decide (setFlag b mask x &&& mask ≠ 0) = b := by
  cases b with
  | true =>
    rw [setFlag, if_pos rfl, BitVec.and_or_distrib_right, hx]
    simpa using hmask
  | false => simp [setFlag, hx]

end Flags

def fcfOf (frameType : FrameType) (security pending ack compression suppressed
    ies : Bool) (dstMode : AddressMode) (version : FrameVersion)
    (srcMode : AddressMode) : BitVec 16 :=
  setFlag ies 0x0200 (setFlag suppressed 0x0100 (setFlag compression 0x0040
    (setFlag ack 0x0020 (setFlag pending 0x0010 (setFlag security 0x0008 frameType.toU16))))) |||
    dstMode.toU16 <<< 10 ||| version.toU16 ||| srcMode.toU16 <<< 14

structure FcfSpec (fcf : BitVec 16) (frameType : FrameType) (security pending ack
    compression suppressed ies : Bool) (dstMode : AddressMode)
    (version : FrameVersion) (srcMode : AddressMode) : Prop where
  frameType : FrameType.fromFcf fcf = some frameType
  security : decide (fcf &&& 0x0008 ≠ 0) = security
  pending : decide (fcf &&& 0x0010 ≠ 0) = pending
  ack : decide (fcf &&& 0x0020 ≠ 0) = ack
  compression : decide (fcf &&& 0x0040 ≠ 0) = compression
  suppressed : decide (fcf &&& 0x0100 ≠ 0) = suppressed
  ies : decide (fcf &&& 0x0200 ≠ 0) = ies
  dstMode : AddressMode.fromMode ((fcf >>> 10) &&& 0b11) = some dstMode
  version : FrameVersion.fromFcf fcf = some version
  srcMode : AddressMode.fromMode ((fcf >>> 14) &&& 0b11) = some srcMode

section

variable (frameType : FrameType) (security pending ack compression suppressed ies : Bool)
  (dstMode : AddressMode) (version : FrameVersion) (srcMode : AddressMode)
include frameType security pending ack compression suppressed ies dstMode version srcMode

theorem fcfOf_and_low {k : BitVec 16} (hk : k &&& 0xfc00 = 0) :
    fcfOf frameType security pending ack compression suppressed ies dstMode version srcMode &&& k =
      setFlag ies 0x0200 (setFlag suppressed 0x0100 (setFlag compression 0x0040
        (setFlag ack 0x0020 (setFlag pending 0x0010
          (setFlag security 0x0008 frameType.toU16))))) &&& k := by
  have hhigh : ∀ y : BitVec 16, y &&& 0xfc00 = y → y &&& k = 0 := by
    intro y hy
    rw [← hy, BitVec.and_assoc, BitVec.and_comm 0xfc00 k, hk]
    exact BitVec.and_zero
  have hdst : dstMode.toU16 <<< 10 &&& 0xfc00 = dstMode.toU16 <<< 10 := by
    cases dstMode <;> decide
  have hversion : version.toU16 &&& 0xfc00 = version.toU16 := by
    cases version <;> decide
  have hsrc : srcMode.toU16 <<< 14 &&& 0xfc00 = srcMode.toU16 <<< 14 := by
    cases srcMode <;> decide
  rw [fcfOf, or_and_of_disjoint k (hhigh _ hsrc),
    or_and_of_disjoint k (hhigh _ hversion), or_and_of_disjoint k (hhigh _ hdst)]

theorem fcfOf_ushiftRight : fcfOf frameType security pending ack compression suppressed ies dstMode
        version srcMode >>> 10 =
      (dstMode.toU16 <<< 10 ||| version.toU16 ||| srcMode.toU16 <<< 14) >>> 10 := by
  have htype : frameType.toU16 >>> 10 = 0 := by cases frameType <;> decide
  simp only [fcfOf, ushiftRight_or_distrib]
  rw [setFlag_ushiftRight_of_lt _ (by decide), setFlag_ushiftRight_of_lt _ (by decide),
    setFlag_ushiftRight_of_lt _ (by decide), setFlag_ushiftRight_of_lt _ (by decide),
    setFlag_ushiftRight_of_lt _ (by decide), setFlag_ushiftRight_of_lt _ (by decide), htype]
  rw [show (0 : BitVec 16) ||| dstMode.toU16 <<< 10 >>> 10 =
    dstMode.toU16 <<< 10 >>> 10 from zero_or]

/-- Every field of the frame control word reads back as it was written. -/
theorem fcfOf_spec : FcfSpec (fcfOf frameType security pending ack compression suppressed ies
      dstMode version srcMode) frameType security pending ack compression
      suppressed ies dstMode version srcMode := by
  have htype : ∀ k : BitVec 16, k &&& 0b111 = 0 → frameType.toU16 &&& k = 0 := by
    intro k hk
    have hbits : frameType.toU16 &&& 0b111 = frameType.toU16 := by
      cases frameType <;> decide
    rw [← hbits, BitVec.and_assoc, BitVec.and_comm 0b111 k, hk]
    exact BitVec.and_zero
  have hversion : fcfOf frameType security pending ack compression suppressed ies
      dstMode version srcMode &&& 0x3000 = version.toU16 := by
    rw [fcfOf, or_and_of_disjoint _ (by cases srcMode <;> decide), BitVec.and_or_distrib_right,
      or_and_of_disjoint _ (by cases dstMode <;> decide)]
    iterate 6 rw [setFlag_and_of_disjoint _ _ (by decide)]
    rw [htype _ (by decide)]
    cases version <;> decide
  have hlow := fun k => fcfOf_and_low (k := k) frameType security pending ack
    compression suppressed ies dstMode version srcMode
  have hhigh := fcfOf_ushiftRight frameType security pending ack compression
    suppressed ies dstMode version srcMode
  generalize fcfOf frameType security pending ack compression suppressed ies
    dstMode version srcMode = fcf at hversion hlow hhigh
  refine ⟨?_, ?_, ?_, ?_, ?_, ?_, ?_, ?_, ?_, ?_⟩
  · have hbits : fcf &&& 0b111 = frameType.toU16 := by
      rw [hlow _ (by decide)]
      iterate 6 rw [setFlag_and_of_disjoint _ _ (by decide)]
      cases frameType <;> decide
    simp only [FrameType.fromFcf, hbits]
    cases frameType <;> rfl
  -- For a flag, what is written after it is passed over, and what is written
  -- before it does not touch its bit.
  · rw [hlow _ (by decide)]
    iterate 5 rw [setFlag_and_of_disjoint _ _ (by decide)]
    exact setFlag_and_self _ (htype _ (by decide)) (by decide)
  · rw [hlow _ (by decide)]
    iterate 4 rw [setFlag_and_of_disjoint _ _ (by decide)]
    refine setFlag_and_self _ ?_ (by decide)
    iterate 1 rw [setFlag_and_of_disjoint _ _ (by decide)]
    exact htype _ (by decide)
  · rw [hlow _ (by decide)]
    iterate 3 rw [setFlag_and_of_disjoint _ _ (by decide)]
    refine setFlag_and_self _ ?_ (by decide)
    iterate 2 rw [setFlag_and_of_disjoint _ _ (by decide)]
    exact htype _ (by decide)
  · rw [hlow _ (by decide)]
    iterate 2 rw [setFlag_and_of_disjoint _ _ (by decide)]
    refine setFlag_and_self _ ?_ (by decide)
    iterate 3 rw [setFlag_and_of_disjoint _ _ (by decide)]
    exact htype _ (by decide)
  · rw [hlow _ (by decide)]
    iterate 1 rw [setFlag_and_of_disjoint _ _ (by decide)]
    refine setFlag_and_self _ ?_ (by decide)
    iterate 4 rw [setFlag_and_of_disjoint _ _ (by decide)]
    exact htype _ (by decide)
  · rw [hlow _ (by decide)]
    refine setFlag_and_self _ ?_ (by decide)
    iterate 5 rw [setFlag_and_of_disjoint _ _ (by decide)]
    exact htype _ (by decide)
  · rw [hhigh]
    cases dstMode <;> cases version <;> cases srcMode <;> decide
  · simp only [FrameVersion.fromFcf, hversion]
    cases version <;> rfl
  · rw [show 14 = 10 + 4 from rfl, BitVec.shiftRight_add, hhigh]
    cases dstMode <;> cases version <;> cases srcMode <;> decide

end

end TockKernel.Net

import TockKernel.Net.Ieee802154Fields

/-!
# The round trip of IEEE 802.15.4 headers

Encoding and decoding a header gives the header back exactly if it has no
payload elements, at most four header elements with identifiers that are not
those of a termination, and a payload if it has elements at all.
-/

namespace TockKernel.Net

open HeaderIE
open List hiding Vector
open BitVec (and_zero ofNat)

/-! ## The control word of a header element -/

def headerCtl (len : ℕ) (id : Byte) : BitVec 16 :=
  (BitVec.ofNat 16 len &&& BitVec.ofNat 16 0x7f) ||| (id.setWidth 16 <<< 7)

theorem headerCtl_type (len : ℕ) (id : Byte) : headerCtl len id &&& 0x8000 = 0 := by
  have hid : ∀ id : Byte, (id.setWidth 16 <<< 7 : BitVec 16) &&& 0x8000 = 0 := by
    decide
  rw [headerCtl, or_and_of_disjoint _ (hid id), BitVec.and_assoc]
  exact and_zero

variable {len : ℕ} {content : List Byte} {id : Byte} {room n : ℕ}
  {result : List Byte × Unit} {ie : HeaderIE} {rest buf : List Byte} {off : ℕ}
  {v : Vector HeaderIE maxHeaderIes}

theorem headerCtl_len (hlen : len ≤ 0x7f) (id : Byte) :
    (headerCtl len id &&& 0x7f).toNat = len := by
  have hid : ∀ id : Byte, (id.setWidth 16 <<< 7 : BitVec 16) &&& 0x7f = 0 := by
    decide
  have hmod : len &&& (2 ^ 7 - 1) = len := by
    rw [Nat.and_two_pow_sub_one_eq_mod, Nat.mod_eq_of_lt (by omega)]
  rw [headerCtl, or_and_of_disjoint _ (hid id), BitVec.and_assoc,
    BitVec.toNat_and, BitVec.toNat_ofNat, Nat.mod_eq_of_lt (by omega)]
  exact hmod

theorem headerCtl_id (len : ℕ) (id : Byte) : (headerCtl len id >>> 7).setWidth 8 = id := by
  have hid : ∀ id : Byte, ((id.setWidth 16 <<< 7 : BitVec 16) >>> 7).setWidth 8 = id := by
    decide
  have hlen : (ofNat 16 len &&& ofNat 16 0x7f) >>> 7 = 0 := by
    rw [BitVec.ushiftRight_and_distrib]
    exact and_zero
  rw [headerCtl, BitVec.ushiftRight_or_distrib, hlen, show (0 : BitVec 16) |||
    (id.setWidth 16 <<< 7) >>> 7 = (id.setWidth 16 <<< 7) >>> 7 from BitVec.zero_or]
  exact hid id

/-! ## Header elements -/

/-- What the decoder makes of an element: some identifiers are those of a
termination. -/
def HeaderIE.ofId (id : Byte) (content : List Byte) : HeaderIE :=
  if id = 0x7e then .termination1
  else if id = 0x7f then .termination2
  else .undissected id content

def elementBytes (ctl : BitVec 16) (content : List Byte) : List Byte :=
  u16Bytes ctl ++ content

theorem decodes_headerElement (hlen : content.length ≤ 0x7f) (id : Byte) :
    Decodes decode (elementBytes (headerCtl content.length id) content) (ofId id content) := by
  intro rest
  have hbytes : elementBytes (headerCtl content.length id) content ++ rest =
      u16Bytes (headerCtl content.length id) ++ (content ++ rest) :=
    append_assoc _ _ _
  have hdrop : (u16Bytes (headerCtl content.length id) ++
      (content ++ rest)).drop 2 = content ++ rest := drop_left' rfl
  have hlength : ¬ (u16Bytes (headerCtl content.length id) ++
      (content ++ rest)).length < 2 + content.length := by
    simp only [u16Bytes, length_append, length_cons]
    omega
  rw [hbytes]
  rw [decode, decTry_u16Bytes]
  simp only [be16_be16, headerCtl_type, headerCtl_len hlen, headerCtl_id, hdrop, if_true]
  rw [if_neg hlength, take_left]
  simp only [elementBytes, u16Bytes, length_append, length_cons, length_nil, ofId]

def HeaderIE.bytes : HeaderIE → List Byte
  | .undissected id content => elementBytes (headerCtl content.length id) content
  | .termination1 => u16Bytes (headerCtl 0 0x7e)
  | .termination2 => u16Bytes (headerCtl 0 0x7f)

def HeaderIE.Short : HeaderIE → Prop
  | .undissected _ content => content.length ≤ 0x7f
  | .termination1 => True
  | .termination2 => True

theorem writes_element {lenMax pos : ℕ}
    (hdone : encodeElement lenMax pos id content room = .done n result) : content.length ≤ lenMax ∧
      let ctl := (ofNat 16 content.length &&& ofNat 16 lenMax) ||| (id.setWidth 16 <<< pos)
      n = (elementBytes ctl content).length ∧ result = (elementBytes ctl content, ()) := by
  have hdone := (writes_bytes content).encTry hdone
  rw [Nat.add_sub_cancel_left] at hdone
  dsimp only at hdone
  split at hdone
  next hlen =>
    refine ⟨hlen, ?_⟩
    have hdone := (writes_bytes _).encTry hdone
    cases hdone
    refine ⟨?_, rfl⟩
    simp only [elementBytes, u16Bytes, length_append, length_cons, length_nil]
  next => cases hdone

theorem writes_termination {pos : ℕ} :
    Writes (encodeTermination pos id) (u16Bytes (id.setWidth 16 <<< pos)) () := by
  intro room n result hdone
  have hdone := (writes_bytes _).encTry hdone
  cases hdone
  exact ⟨rfl, rfl⟩

theorem HeaderIE.writes (ie : HeaderIE) : Writes ie.encode ie.bytes () := by
  cases ie with
  | undissected id content =>
    intro room n result hdone
    exact (writes_element hdone).2
  | termination1 | termination2 => exact writes_termination

theorem HeaderIE.short_of_encode (hdone : ie.encode room = .done n result) : ie.Short := by
  cases ie with
  | undissected id content => exact (writes_element hdone).1
  | termination1 => trivial
  | termination2 => trivial

/-! ## Lists of elements -/

theorem encodeIes_eq_done {isTermination : σ → Bool} {encode : σ → Encoder Unit}
    {bytes : σ → List Byte} (hwrites : ∀ x, Writes (encode x) (bytes x) ()) {ies : List σ}
    (hdone : encodeIes isTermination encode ies room = .done n result) :
    (∀ ie ∈ ies, isTermination ie = false ∧ ∃ room n result, encode ie room = .done n result) ∧
      n = (ies.flatMap bytes).length ∧ result = (ies.flatMap bytes, ()) := by
  induction ies generalizing room n result with
  | nil =>
    cases hdone
    exact ⟨by simp, rfl, rfl⟩
  | cons ie rest ih =>
    unfold encodeIes at hdone
    split at hdone
    next => cases hdone
    next hplain =>
      obtain ⟨m, _, _, hie, hdone⟩ := encTry_eq_done hdone
      obtain ⟨rfl, heq⟩ := hwrites ie _ _ _ hie
      cases heq
      obtain ⟨_, _, _, hrest, hdone⟩ := encTry_eq_done hdone
      obtain ⟨hall, rfl, heq⟩ := ih hrest
      cases heq
      cases hdone
      refine ⟨forall_mem_cons.mpr ⟨⟨by simpa using hplain, _, _, _, hie⟩, hall⟩, ?_, rfl⟩
      rw [flatMap_cons, length_append, Nat.zero_add]

def HeaderIE.Plain : HeaderIE → Prop
  | .undissected id _ => id ≠ 0x7e ∧ id ≠ 0x7f
  | .termination1 => False
  | .termination2 => False

theorem HeaderIE.Plain.ofId (h : (HeaderIE.undissected id content).Plain) :
    HeaderIE.ofId id content = .undissected id content := by
  rw [HeaderIE.ofId, if_neg h.1, if_neg h.2]

theorem decodeHeaderIes_plain (hplain : ie.Plain) (hshort : ie.Short)
    (h : Remaining buf off (ie.bytes ++ rest)) (hlen : len + 1 < maxHeaderIes)
    (fuel : ℕ) (ies : Vector HeaderIE maxHeaderIes) : decodeHeaderIes buf (fuel + 1) off ies len =
      decodeHeaderIes buf fuel (off + ie.bytes.length) (ies.setIfInBounds len ie) (len + 1) := by
  cases ie with
  | undissected id content =>
    have hdecodes := decodes_headerElement hshort id
    rw [hplain.ofId] at hdecodes
    rw [decodeHeaderIes, h.decTry hdecodes]
    exact if_pos hlen
  | termination1 | termination2 => exact hplain.elim

theorem HeaderIE.decodes_termination1 : Decodes decode (bytes .termination1) .termination1 := by
  have hlen : ([] : List Byte).length ≤ 0x7f := by decide
  have h := decodes_headerElement hlen 0x7e
  exact h

theorem HeaderIE.decodes_termination2 : Decodes decode (bytes .termination2) .termination2 := by
  have hlen : ([] : List Byte).length ≤ 0x7f := by decide
  have h := decodes_headerElement hlen 0x7f
  exact h

/-- The slots from `len` on are filled with the elements of a list. -/
def fillFrom {σ : Type*} {m : ℕ} (v : Vector σ m) (len : ℕ) : List σ → Vector σ m
  | [] => v
  | ie :: rest => fillFrom (v.setIfInBounds len ie) (len + 1) rest

theorem getElem_fillFrom {m : ℕ} (v : Vector σ m) (len : ℕ)
    (ies : List σ) {i : ℕ} (hi : i < m) : (fillFrom v len ies)[i] =
      if i < len then v[i] else (ies[i - len]?).getD v[i] := by
  induction ies generalizing v len with
  | nil => simp [fillFrom]
  | cons ie rest ih =>
    rw [fillFrom, ih]
    rcases Nat.lt_trichotomy i len with hlt | rfl | hgt
    · rw [if_pos (by omega), if_pos hlt, Vector.getElem_setIfInBounds_ne _ (by omega)]
    · simp
    obtain ⟨j, rfl⟩ := Nat.exists_eq_add_of_lt hgt
    rw [if_neg (by omega), if_neg (by omega), Vector.getElem_setIfInBounds_ne _ (by omega)]
    simp [show len + j + 1 - len = j + 1 by omega]

theorem decodeHeaderIes_run {ies : List HeaderIE} (hies : ∀ ie ∈ ies, ie.Plain ∧ ie.Short)
    (h : Remaining buf off (ies.flatMap bytes ++ rest))
    (hlen : len + ies.length < maxHeaderIes) (fuel : ℕ) (v : Vector HeaderIE maxHeaderIes) :
    decodeHeaderIes buf (fuel + ies.length) off v len =
      decodeHeaderIes buf fuel (off + (ies.flatMap bytes).length)
        (fillFrom v len ies) (len + ies.length) := by
  induction ies generalizing off len v with
  | nil => rfl
  | cons ie rest' ih =>
    rw [flatMap_cons, append_assoc] at h
    rw [length_cons] at hlen
    have hie := hies ie (by simp)
    rw [length_cons, ← Nat.add_assoc, decodeHeaderIes_plain hie.1 hie.2 h (by omega), ih
      (fun x hx => hies x (mem_cons_of_mem _ hx)) h.advance (by omega), flatMap_cons, length_append]
    congr 1 <;> omega

/-! ## What the loop returns -/

/-- Four elements at most, each with an identifier of its own, and the unused
slots as they were in the beginning. -/
structure GoodIes (v : Vector HeaderIE maxHeaderIes) (len : ℕ) : Prop where
  lt : len < maxHeaderIes
  used : ∀ i (hi : i < maxHeaderIes), i < len → v[i].Plain
  unused : ∀ i (hi : i < maxHeaderIes), len ≤ i → v[i] = .termination1

theorem goodIes_noHeaderIes : GoodIes Header.noHeaderIes 0 := by
  refine ⟨by decide, fun _ _ hlt => absurd hlt (Nat.not_lt_zero _), ?_⟩
  intro i hi _
  exact Vector.getElem_replicate hi

theorem GoodIes.set (h : GoodIes v len) (hlen : len + 1 < maxHeaderIes)
    (hie : ie.Plain) : GoodIes (v.setIfInBounds len ie) (len + 1) := by
  refine ⟨hlen, fun i hi hlt => ?_, fun i hi hle => ?_⟩
  · by_cases hcase : len = i
    · subst hcase
      rw [Vector.getElem_setIfInBounds_self]
      exact hie
    · rw [Vector.getElem_setIfInBounds_ne _ hcase]
      exact h.used i hi (by omega)
  · rw [Vector.getElem_setIfInBounds_ne _ (by omega)]
    exact h.unused i hi (by omega)

theorem HeaderIE.plain_of_decode (h : decode buf = .done n (.undissected id content)) :
    (undissected id content).Plain := by
  obtain ⟨m, _, -, h⟩ := decTry_eq_done h
  dsimp only at h
  split at h
  swap
  · cases h
  split at h
  · cases h
  have hout := (SResult.done.inj h).2
  split at hout
  · cases hout
  split at hout
  · cases hout
  next h7e h7f =>
  cases hout
  exact ⟨h7e, h7f⟩

theorem goodIes_of_decode {fuel : ℕ} {v' : Vector HeaderIE maxHeaderIes} {len' : ℕ} {more : Bool}
    (hgood : GoodIes v len) (h : decodeHeaderIes buf fuel off v len = .done n (v', len', more)) :
    GoodIes v' len' := by
  induction fuel generalizing off len v with
  | zero => cases h
  | succ fuel ih =>
    obtain ⟨m, ie, hie, h⟩ := decTry_eq_done h
    cases ie with
    | undissected id content =>
      dsimp only at h
      split at h
      next hlen =>
        exact ih (hgood.set hlen (plain_of_decode hie)) h
      next => cases h
    | termination1 | termination2 =>
      cases h
      exact hgood

theorem GoodIes.fillFrom (h : GoodIes v len) :
    Net.fillFrom Header.noHeaderIes 0 (v.toList.take len) = v := by
  ext i hi
  rw [getElem_fillFrom, Nat.sub_zero]
  have hlist : v.toList[i]? = some v[i] := by
    rw [getElem?_eq_getElem (by simpa using hi), Vector.getElem_toList]
  by_cases hlt : i < len
  · rw [getElem?_take_of_lt hlt, hlist]
    rfl
  · rw [getElem?_take_eq_none (by omega), h.unused i hi (by omega)]
    exact Vector.getElem_replicate hi

theorem GoodIes.decodeHeaderIes (hgood : GoodIes v len)
    (hshort : ∀ ie ∈ v.toList.take len, ie.Short)
    (h : Remaining buf off ((v.toList.take len).flatMap bytes ++ rest)) :
    decodeHeaderIes buf maxHeaderIes off Header.noHeaderIes 0 =
      decodeHeaderIes buf (maxHeaderIes - len)
        (off + ((v.toList.take len).flatMap bytes).length) v len := by
  have hlen := hgood.lt
  have htake : (v.toList.take len).length = len := by
    rw [length_take, Vector.length_toList]
    omega
  have hplain : ∀ ie ∈ v.toList.take len, ie.Plain ∧ ie.Short := by
    refine fun ie hie => ⟨?_, hshort ie hie⟩
    obtain ⟨i, -, rfl⟩ := getElem_of_mem hie
    rw [getElem_take]
    exact hgood.used i (by omega) (by omega)
  have hroom : 0 + (v.toList.take len).length < maxHeaderIes := by omega
  have hrun := decodeHeaderIes_run hplain h hroom (maxHeaderIes - len) Header.noHeaderIes
  rw [htake, hgood.fillFrom, Nat.zero_add, Nat.sub_add_cancel (by omega)] at hrun
  exact hrun

/-! ## Payload elements -/

theorem payloadCtl_type (len : ℕ) (id : Byte) : ((ofNat 16 len &&& ofNat 16 0x7ff) |||
      ((id &&& 0xf).setWidth 16 <<< 11)) &&& 0x8000 = 0 := by
  have hid : ∀ id : Byte, ((id &&& 0xf).setWidth 16 <<< 11 : BitVec 16) &&& 0x8000 = 0 := by
    decide
  rw [or_and_of_disjoint _ (hid id), BitVec.and_assoc]
  exact and_zero

def payloadBytes : PayloadIE → List Byte
  | .undissected groupId content =>
    elementBytes ((BitVec.ofNat 16 content.length &&& BitVec.ofNat 16 0x7ff) |||
      ((groupId &&& 0xf).setWidth 16 <<< 11)) content
  | .termination => u16Bytes ((0xf : Byte).setWidth 16 <<< 11)

theorem PayloadIE.writes (ie : PayloadIE) : Writes ie.encode (payloadBytes ie) () := by
  cases ie with
  | undissected id content =>
    intro room n result hdone
    exact (writes_element hdone).2
  | termination => exact writes_termination

theorem PayloadIE.decode_of_type {ctl : BitVec 16} (htype : ctl &&& 0x8000 = 0)
    (rest : List Byte) : PayloadIE.decode (u16Bytes ctl ++ rest) = .error := by
  rw [PayloadIE.decode, decTry_u16Bytes]
  simp only [be16_be16]
  exact if_neg (not_not.mpr htype)

theorem PayloadIE.decode_encoded {ie : PayloadIE}
    (hie : ie.isTermination = false) (rest : List Byte) :
    PayloadIE.decode (payloadBytes ie ++ rest) = .error := by
  cases ie with
  | undissected id content =>
    exact PayloadIE.decode_of_type (payloadCtl_type _ _) _
  | termination => cases hie

/-! ## Headers -/

namespace Header

def elementsBytes (h : Header) (hasPayload : Bool) : List Byte :=
  (h.headerIes.toList.take h.headerIesLen).flatMap HeaderIE.bytes ++
    (optionBytes HeaderIE.bytes (h.headerTermination hasPayload) ++
      ((h.payloadIes.toList.take h.payloadIesLen).flatMap payloadBytes ++
        optionBytes payloadBytes (h.payloadTermination hasPayload)))

def bytes (h : Header) (dropSrcPan panIdCompression hasPayload : Bool) : List Byte :=
  u16Bytes (h.fcf panIdCompression) ++ (optionBytes (fun b => [b]) h.seq ++
      (h.addressingBytes dropSrcPan ++
        (optionBytes Security.bytes h.security ++ h.elementsBytes hasPayload)))

/-- What the encoder has checked when it succeeds, and what it has written. -/
structure Encoded (h : Header) (hasPayload : Bool) (bytes : List Byte) : Prop where
  addressing : ∃ dropSrcPan panIdCompression, h.compression = some (dropSrcPan, panIdCompression) ∧
      bytes = h.bytes dropSrcPan panIdCompression hasPayload
  short : ∀ ie ∈ h.headerIes.toList.take h.headerIesLen, ie.Short
  payloadIes : ∀ ie ∈ h.payloadIes.toList.take h.payloadIesLen, ie.isTermination = false
  payloadLen : h.payloadIesLen ≤ maxPayloadIes

variable {h : Header} {n : ℕ} {buf : List Byte} {off m : ℕ}
  {iePresent more : Bool}

theorem encoded_of_encode {hasPayload : Bool} {room : ℕ} {bytes : List Byte} {macPayloadOff : ℕ}
    (hdone : h.encode hasPayload room = .done n (bytes, macPayloadOff)) :
    h.Encoded hasPayload bytes ∧ n = bytes.length := by
  unfold Header.encode at hdone
  split at hdone
  · cases hdone
  split at hdone
  · cases hdone
  have hseq : ∀ b, Writes (encodeU8 b) [b] () := fun b => writes_bytes _
  have hdone := (writes_option hseq _).encTry hdone
  obtain ⟨m, _, panIdCompression, haddr, hdone⟩ := encTry_eq_done hdone
  cases hcomp : h.compression with
  | none => simp [Header.encodeAddressing, hcomp] at haddr
  | some flags =>
    obtain ⟨dropSrcPan, flag⟩ := flags
    obtain ⟨rfl, heq⟩ := Header.writes_addressing hcomp _ _ _ haddr
    cases heq
    have hdone := (writes_option Security.writes _).encTry hdone
    split at hdone
    swap
    · cases hdone
    next hlens =>
    obtain ⟨_, headerBytes, _, hheader, hdone⟩ := encTry_eq_done hdone
    obtain ⟨hheaderIes, rfl, heq⟩ := encodeIes_eq_done writes hheader
    cases heq
    have hdone := (writes_option writes _).encTry hdone
    obtain ⟨_, _, _, hpayload, hdone⟩ := encTry_eq_done hdone
    obtain ⟨hpayloadIes, rfl, heq⟩ := encodeIes_eq_done PayloadIE.writes hpayload
    cases heq
    have hdone := (writes_option PayloadIE.writes _).encTry hdone
    have hdone := (writes_bytes _).encTry hdone
    cases hdone
    refine ⟨⟨⟨dropSrcPan, panIdCompression, hcomp, ?_⟩, ?_, ?_, hlens.2⟩, ?_⟩
    · simp [Header.bytes, elementsBytes, u16Bytes]
    · intro ie hie
      obtain ⟨-, _, _, _, hencode⟩ := hheaderIes ie hie
      exact short_of_encode hencode
    · exact fun ie hie => (hpayloadIes ie hie).1
    · simp only [length_append, length_cons, length_nil]

def fixedPart (h : Header) : Header :=
  { h with
    headerIes := noHeaderIes
    headerIesLen := 0
    payloadIes := noPayloadIes
    payloadIesLen := 0 }

theorem decode_fixedPart {dropSrcPan panIdCompression : Bool}
    (hcomp : h.compression = some (dropSrcPan, panIdCompression))
    (hasPayload : Bool) (payload : List Byte) (unsecured : Bool) :
    let buf := h.bytes dropSrcPan panIdCompression hasPayload ++ payload
    ∃ off, Remaining buf off (h.elementsBytes hasPayload ++ payload) ∧ Header.decode buf unsecured =
        decodeElements buf off (decide (h.headerIesLen ≠ 0 ∨ h.payloadIesLen ≠ 0))
          (unsecured || !h.security.isSome) h.fixedPart := by
  intro buf
  have hfcf : FcfSpec (h.fcf panIdCompression) _ _ _ _ _ _ _ _ _ _ :=
    fcfOf_spec h.frameType h.security.isSome h.framePending h.ackRequested
      panIdCompression h.seq.isNone (decide (h.headerIesLen ≠ 0 ∨ h.payloadIesLen ≠ 0))
      (AddressMode.ofAddress h.dstAddr) h.version (AddressMode.ofAddress h.srcAddr)
  have hbuf : buf = u16Bytes (h.fcf panIdCompression) ++
      (optionBytes (fun b => [b]) h.seq ++ (h.addressingBytes dropSrcPan ++
        (optionBytes Security.bytes h.security ++ (h.elementsBytes hasPayload ++ payload)))) := by
    simp [buf, Header.bytes]
  have h0 : Remaining buf 0 (_ ++ _) := ⟨Nat.zero_le _, hbuf⟩
  have h1 := h0.advance
  have h2 := h1.advance
  have h3 := h2.advance
  refine ⟨_, h3.advance, ?_⟩
  rw [Header.decode, h0.decTry (decodes_u16 (be16 (h.fcf panIdCompression)))]
  simp only [be16_be16, hfcf.frameType, hfcf.dstMode, hfcf.version, hfcf.srcMode,
    hfcf.security, hfcf.pending, hfcf.ack, hfcf.compression, hfcf.suppressed, hfcf.ies]
  rw [h1.decTry (decodes_seq h.seq), h2.decTry (decodes_addressing hcomp),
    h3.decTry (decodes_security h.security)]
  rfl

structure RoundTrips (h : Header) (hasPayload : Bool) : Prop where
  headerIes : GoodIes h.headerIes h.headerIesLen
  payloadIesLen : h.payloadIesLen = 0
  payloadIes : h.payloadIes = noPayloadIes
  terminated : h.headerIesLen = 0 ∨ hasPayload = true

theorem decodeElements_eq_done {unencrypted : Bool} {h0 : Header}
    (hdone : decodeElements buf off iePresent unencrypted h0 = .done n (h, m)) : ∃ more,
      decodeHeaderPart buf off iePresent = .done m (h.headerIes, h.headerIesLen, more) ∧
      decodePayloadPart buf m (more && unencrypted) = .done n (h.payloadIes, h.payloadIesLen) := by
  unfold decodeElements at hdone
  split at hdone
  next m' headerIes headerIesLen more hheader =>
    split at hdone
    next n' payloadIes payloadIesLen hpayload =>
      cases hdone
      exact ⟨more, hheader, hpayload⟩
    all_goals cases hdone
  all_goals cases hdone

theorem decodeElements_of_parts {unencrypted : Bool}
    (hheader : decodeHeaderPart buf off iePresent = .done m (h.headerIes, h.headerIesLen, more))
    (hpayload : decodePayloadPart buf m (more && unencrypted) =
      .done n (h.payloadIes, h.payloadIesLen)) :
    decodeElements buf off iePresent unencrypted h.fixedPart = .done n (h, m) := by
  simp only [decodeElements, hheader, hpayload]
  rfl

theorem goodIes_of_decodeHeaderPart {len : ℕ} {v : Vector HeaderIE maxHeaderIes}
    (h : decodeHeaderPart buf off iePresent = .done m (v, len, more)) : GoodIes v len := by
  unfold decodeHeaderPart at h
  split at h
  · exact goodIes_of_decode goodIes_noHeaderIes h
  · cases h
    exact goodIes_noHeaderIes

theorem decodeHeaderPart_terminated (hgood : GoodIes h.headerIes h.headerIesLen)
    (hshort : ∀ ie ∈ h.headerIes.toList.take h.headerIesLen, ie.Short) {rest : List Byte}
    {ie : HeaderIE} (hie : (ie = .termination1 ∧ more) ∨ (ie = .termination2 ∧ more = false))
    (hremaining : Remaining buf off ((h.headerIes.toList.take h.headerIesLen).flatMap
      HeaderIE.bytes ++ (ie.bytes ++ rest))) :
    ∃ m, Remaining buf m rest ∧ decodeHeaderPart buf off true =
        .done m (h.headerIes, h.headerIesLen, more) := by
  have hlt := hgood.lt
  obtain ⟨fuel, hfuel⟩ : ∃ fuel, maxHeaderIes - h.headerIesLen = fuel + 1 :=
    ⟨maxHeaderIes - h.headerIesLen - 1, by omega⟩
  have hnext := hremaining.advance
  refine ⟨_, hnext.advance, ?_⟩
  rw [decodeHeaderPart, if_pos rfl, hgood.decodeHeaderIes hshort hremaining, hfuel, decodeHeaderIes]
  rcases hie with ⟨rfl, rfl⟩ | ⟨rfl, rfl⟩
  · rw [hnext.decTry HeaderIE.decodes_termination1]
  · rw [hnext.decTry HeaderIE.decodes_termination2]

end Header

theorem Remaining.off_eq {bytes : List Byte}
    (h : Remaining (bytes ++ rest) off rest) : off = bytes.length := by
  have hlen := congrArg length h.drop
  have hle := h.le
  rw [length_drop, length_append] at hlen
  rw [length_append] at hle
  omega

namespace Header

variable {h : Header} {hasPayload : Bool}

section

variable {bytes : List Byte} (hencoded : h.Encoded hasPayload bytes)
include hencoded

theorem decode_of_roundTrips (hround : h.RoundTrips hasPayload)
    (payload : List Byte) (unsecured : Bool) : ∃ m, Header.decode (bytes ++ payload) unsecured =
      .done bytes.length (h, m) := by
  obtain ⟨dropSrcPan, panIdCompression, hcomp, rfl⟩ := hencoded.addressing
  obtain ⟨off, hremaining, hdecode⟩ := decode_fixedPart hcomp hasPayload payload unsecured
  have hpayloadEnd : h.payloadTermination hasPayload = none := by
    simp [payloadTermination, hround.payloadIesLen]
  have hpayload : ∀ m, decodePayloadPart
      (h.bytes dropSrcPan panIdCompression hasPayload ++ payload) m false =
      .done m (h.payloadIes, h.payloadIesLen) := by
    intro m
    rw [hround.payloadIes, hround.payloadIesLen]
    rfl
  rw [hdecode]
  rw [elementsBytes, hround.payloadIesLen, hpayloadEnd] at hremaining
  by_cases hlen : h.headerIesLen = 0
  · -- Without any elements there is nothing left to decode.
    have hnone : h.headerTermination hasPayload = none := by
      simp [headerTermination, hround.payloadIesLen, hlen]
    rw [hlen, hnone] at hremaining
    have hies : h.headerIes = noHeaderIes := by
      have hfill := hround.headerIes.fillFrom
      rw [hlen] at hfill
      exact hfill.symm
    have hheader : decodeHeaderPart (h.bytes dropSrcPan panIdCompression hasPayload ++ payload) off
          (decide (h.headerIesLen ≠ 0 ∨ h.payloadIesLen ≠ 0)) =
        .done off (h.headerIes, h.headerIesLen, false) := by
      rw [hlen, hround.payloadIesLen, hies]
      rfl
    have hoff : off = _ := Remaining.off_eq hremaining
    refine ⟨off, ?_⟩
    rw [decodeElements_of_parts hheader (hpayload off), ← hoff]
  · have hend : h.headerTermination hasPayload = some .termination2 := by
      simp [headerTermination, hround.payloadIesLen, hlen, hround.terminated.resolve_left hlen]
    rw [hend, append_assoc] at hremaining
    obtain ⟨m, hrest, hheader⟩ := decodeHeaderPart_terminated hround.headerIes
      hencoded.short (.inr ⟨rfl, rfl⟩) hremaining
    have hpresent : decide (h.headerIesLen ≠ 0 ∨ h.payloadIesLen ≠ 0) := by
      simp [hlen]
    have hoff : m = _ := Remaining.off_eq hrest
    refine ⟨m, ?_⟩
    rw [hpresent, decodeElements_of_parts hheader (hpayload m), ← hoff]

theorem decodePayloadPart_encoded (hlen : h.payloadIesLen ≠ 0) {buf rest : List Byte} {m n : ℕ}
    {parsed : Bool}
    (hremaining : Remaining buf m ((h.payloadIes.toList.take h.payloadIesLen).flatMap payloadBytes
      ++ rest))
    (hdone : decodePayloadPart buf m parsed = .done n (h.payloadIes, h.payloadIesLen)) : False := by
  unfold decodePayloadPart at hdone
  split at hdone
  · have htake : (h.payloadIes.toList.take h.payloadIesLen).length ≠ 0 := by
      have hle := hencoded.payloadLen
      rw [length_take, Vector.length_toList]
      omega
    obtain ⟨ie, _, hies⟩ := exists_cons_of_length_pos (Nat.pos_of_ne_zero htake)
    have hie := hencoded.payloadIes ie (by rw [hies]; exact mem_cons_self)
    rw [hies, flatMap_cons, append_assoc] at hremaining
    obtain ⟨k, x, hx, -⟩ := decTry_eq_done hdone
    rw [hremaining.drop, PayloadIE.decode_encoded hie] at hx
    cases hx
  have hzero := (SResult.done.inj hdone).2
  rw [Prod.mk.injEq] at hzero
  exact hlen hzero.2.symm

theorem roundTrips_of_decode {unsecured : Bool} {n m : ℕ}
    (hdone : Header.decode (bytes ++ []) unsecured = .done n (h, m)) : h.RoundTrips hasPayload := by
  obtain ⟨_, _, hcomp, rfl⟩ := hencoded.addressing
  obtain ⟨_, hremaining, hdecode⟩ := decode_fixedPart hcomp hasPayload [] unsecured
  rw [hdecode] at hdone
  obtain ⟨more, hheader, hpayload⟩ := decodeElements_eq_done hdone
  have hgood := goodIes_of_decodeHeaderPart hheader
  have hpayloadLen : h.payloadIesLen = 0 := by
    by_contra hlen
    have hend : h.headerTermination hasPayload = some .termination1 := by
      simp [headerTermination, hlen]
    have hpresent : decide (h.headerIesLen ≠ 0 ∨ h.payloadIesLen ≠ 0) := by
      simp [hlen]
    rw [elementsBytes, hend, append_assoc, append_assoc, append_assoc] at hremaining
    obtain ⟨m', hrest, hheader'⟩ := decodeHeaderPart_terminated hgood
      hencoded.short (.inl ⟨rfl, rfl⟩) hremaining
    rw [hpresent, hheader'] at hheader
    cases hheader
    exact decodePayloadPart_encoded hencoded hlen hrest hpayload
  have hpayloadIes : more = false → h.payloadIes = noPayloadIes := by
    rintro rfl
    exact (Prod.mk.inj (SResult.done.inj hpayload).2).1.symm
  by_cases hlen : h.headerIesLen = 0
  · refine ⟨hgood, hpayloadLen, hpayloadIes ?_, .inl hlen⟩
    rw [hlen, hpayloadLen] at hheader
    exact (Prod.mk.inj (Prod.mk.inj (SResult.done.inj hheader).2).2).2.symm
  have hpresent : decide (h.headerIesLen ≠ 0 ∨ h.payloadIesLen ≠ 0) := by
    simp [hlen]
  rw [hpresent] at hheader
  rw [elementsBytes, hpayloadLen] at hremaining
  cases hasPayload with
  | true =>
    have hend : h.headerTermination true = some .termination2 := by
      simp [headerTermination, hpayloadLen, hlen]
    rw [hend, append_assoc] at hremaining
    obtain ⟨m', -, hheader'⟩ := decodeHeaderPart_terminated hgood
      hencoded.short (.inr ⟨rfl, rfl⟩) hremaining
    rw [hheader'] at hheader
    cases hheader
    exact ⟨hgood, hpayloadLen, hpayloadIes rfl, .inr rfl⟩
  | false =>
    -- The elements are not terminated, and the decoder looks for another.
    have hnone : h.headerTermination false = none := by
      simp [headerTermination, hpayloadLen]
    have hend : h.payloadTermination false = none := by
      simp [payloadTermination]
    rw [hnone, hend, append_assoc] at hremaining
    have hlt := hgood.lt
    obtain ⟨fuel, hfuel⟩ : ∃ fuel, maxHeaderIes - h.headerIesLen = fuel + 1 :=
      ⟨maxHeaderIes - h.headerIesLen - 1, by omega⟩
    rw [decodeHeaderPart, if_pos rfl,
      hgood.decodeHeaderIes hencoded.short hremaining, hfuel] at hheader
    obtain ⟨k, x, hx, -⟩ := decTry_eq_done hheader
    rw [hremaining.advance.drop] at hx
    cases hx

end

/-- A header survives encoding and decoding, with any payload after it, exactly
if it is one of those above. -/
theorem decode_encode_iff {h : Header} {hasPayload : Bool} {room n : ℕ}
    {bytes : List Byte} {macPayloadOff : ℕ}
    (hencode : h.encode hasPayload room = .done n (bytes, macPayloadOff)) (unsecured : Bool) :
    (∀ payload, ∃ m, Header.decode (bytes ++ payload) unsecured = .done n (h, m)) ↔
      h.RoundTrips hasPayload := by
  obtain ⟨hencoded, rfl⟩ := encoded_of_encode hencode
  constructor
  · intro hround
    obtain ⟨m, hdone⟩ := hround []
    exact roundTrips_of_decode hencoded hdone
  · intro hround payload
    exact decode_of_roundTrips hencoded hround payload unsecured

/-! ## A data frame -/

def sample (headerIes : Vector HeaderIE maxHeaderIes) (headerIesLen : ℕ)
    (payloadIes : Vector PayloadIE maxPayloadIes) (payloadIesLen : ℕ) : Header where
  frameType := .data
  framePending := false
  ackRequested := true
  version := .v2015
  seq := some 7
  dstPan := some 0xabcd
  dstAddr := some (.short 1)
  srcPan := some 0xabcd
  srcAddr := some (.short 2)
  security := none
  headerIes := headerIes
  headerIesLen := headerIesLen
  payloadIes := payloadIes
  payloadIesLen := payloadIesLen

def oneHeaderIe : Vector HeaderIE maxHeaderIes :=
  noHeaderIes.setIfInBounds 0 (.undissected 5 [1, 2])

theorem goodIes_oneHeaderIe : GoodIes oneHeaderIe 1 :=
  goodIes_noHeaderIes.set (by decide) ⟨by decide, by decide⟩

def sampleBytes : List Byte :=
  [0x61, 0xaa, 7, 0xcd, 0xab, 1, 0, 2, 0, 0x82, 0x02, 1, 2, 0x80, 0x3f]

theorem sample_encode : (sample oneHeaderIe 1 noPayloadIes 0).encode true 64 =
      .done 15 (sampleBytes, 15) := by
  decide

/-- The frame with one header element that holds two bytes. -/
theorem decode_encode_iff_sample : (sample oneHeaderIe 1 noPayloadIes 0).RoundTrips true ∧
      ∀ payload, ∃ m, Header.decode (sampleBytes ++ payload) true =
        .done 15 (sample oneHeaderIe 1 noPayloadIes 0, m) := by
  have hround : (sample oneHeaderIe 1 noPayloadIes 0).RoundTrips true :=
    ⟨goodIes_oneHeaderIe, rfl, rfl, .inr rfl⟩
  exact ⟨hround, (decode_encode_iff sample_encode true).mpr hround⟩

def onePayloadIe : Vector PayloadIE maxPayloadIes :=
  noPayloadIes.setIfInBounds 0 (.undissected 5 [1, 2])

/-- With one payload element the frame can be encoded, but not decoded. -/
theorem payload_element_not_decoded :
    ∃ n bytes m, (sample noHeaderIes 0 onePayloadIe 1).encode true 64 = .done n (bytes, m) ∧
      Header.decode (bytes ++ [9]) true = .error :=
  ⟨_, _, _, rfl, by decide⟩

end Header

end TockKernel.Net

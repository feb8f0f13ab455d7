import TockKernel.Net.CcmOperation
import TockKernel.Net.Framer

/-!
# What the framer delivers

A secured frame that passes the checks of its header goes through the CCM engine
in the direction of an encryption. The receive client gets the decrypted frame,
but the code that was received is overwritten and not compared: the frame is
delivered whether it is authentic or not.
-/

namespace TockKernel.Net

open Ccm (Block Cipher)
open VirtualAES128CCM
open Option (bind_eq_some_iff bind_some some)
open Arithmetic

/-! ## Frames

The parts of a frame in which nothing overflows. -/

namespace FrameInfo

variable (cipher : Cipher) (info : FrameInfo) (frame : List Byte)

def unsecuredLen : ℕ := info.dataOffset + info.dataLen

def openLen : ℕ :=
  if info.encryptionNeeded then info.macPayloadOffset else info.unsecuredLen

def aData : List Byte := frame.take info.openLen

def mData : List Byte := part frame info.openLen (info.unsecuredLen - info.openLen)

def receivedMic : List Byte := part frame info.unsecuredLen info.micLen

def Authentic : Prop :=
  match info.securityParams with
  | some (_, key, nonce) =>
    info.receivedMic frame = Ccm.mic cipher key nonce info.micLen
      (info.aData frame) (Ccm.crypt cipher key nonce (info.mData frame))
  | none => False

def unsecured : List Byte :=
  match info.securityParams with
  | some (_, key, nonce) =>
    info.aData frame ++ Ccm.crypt cipher key nonce (info.mData frame)
  | none => []

end FrameInfo

def Header.Parses (bytes : List Byte) (header : Header) : Prop :=
  ∀ rest, ∃ macPayloadOffset, Header.decode (bytes ++ rest) true =
    .done bytes.length (header, macPayloadOffset)

namespace Reception

def frame (r : Reception) : List Byte := part r.buf psduOffset r.frameLen

def header (r : Reception) : Option (ℕ × Header × ℕ) :=
  (frameBuffer r.buf).bind fun frame =>
    match Header.decode frame false with
    | .done dataOffset (header, macPayloadOffset) =>
      some (dataOffset, header, macPayloadOffset)
    | _ => none

def micLenOf (header : Header) : ℕ :=
  match header.security with
  | some security => security.level.micLen
  | none => 0

def micLen (r : Reception) : ℕ :=
  match r.header with
  | some (_, header, _) => micLenOf header
  | none => 0

def frameInfo (keys : KeyProcedure) (r : Reception) : Option FrameInfo :=
  r.header.bind fun (dataOffset, header, macPayloadOffset) =>
    header.security.bind fun security =>
      incomingFrameInfo keys header macPayloadOffset dataOffset
        (r.frameLen - dataOffset - security.level.micLen) security.level.micLen security

/-- The frame is in the buffer, has room for its header and its code, and begins,
once it is decrypted, with a whole header. -/
structure Complete (cipher : Cipher) (info : FrameInfo) (r : Reception) : Prop where
  short : r.frameLen ≤ maxFrameSize
  fits : psduOffset + r.frameLen ≤ r.buf.length
  holds : info.dataOffset + info.micLen ≤ r.frameLen
  header : ∃ bytes payload header,
    info.unsecured cipher r.frame = bytes ++ payload ∧ Header.Parses bytes header

end Reception

def Delivery.Exact (cipher : Cipher) (info : FrameInfo) (r : Reception) (d : Delivery) : Prop :=
  ∃ bytes, Header.Parses bytes d.header ∧ info.unsecured cipher r.frame = bytes ++ d.payload

variable {info : FrameInfo} {macPayloadOffset : ℕ} {keys : KeyProcedure}

theorem Delivery.Exact.payload_eq {cipher : Cipher} {r : Reception}
    {d : Delivery} {bytes payload : List Byte} {header : Header} (h : d.Exact cipher info r)
    (hsplit : info.unsecured cipher r.frame = bytes ++ payload)
    (hparses : Header.Parses bytes header) : d.payload = payload := by
  obtain ⟨bytes', hparses', hsplit'⟩ := h
  have hsame : bytes' ++ d.payload = bytes ++ payload := hsplit'.symm.trans hsplit
  obtain ⟨m, hdone⟩ := hparses payload
  obtain ⟨_, hdone'⟩ := hparses' d.payload
  rw [hsame, hdone] at hdone'
  have hlen : bytes.length = bytes'.length := (SResult.done.inj hdone').1
  exact (List.append_inj hsame hlen.symm).2

/-- A frame with a code is delivered only if it passes the checks and is
authentic, and then exactly. -/
def Proper (cipher : Cipher) (keys : KeyProcedure) (r : Reception) (d : Delivery) : Prop :=
  r.micLen ≠ 0 → ∃ info, r.frameInfo keys = some info ∧
    info.Authentic cipher r.frame ∧ d.Exact cipher info r

theorem decodePayloadIes_le {buf : List Byte} {fuel off len n : ℕ}
    {ies : Vector PayloadIE maxPayloadIes} {out : Vector PayloadIE maxPayloadIes × ℕ}
    (h : decodePayloadIes buf fuel off ies len = .done n out) : off ≤ n := by
  induction fuel generalizing off ies len with
  | zero => cases h
  | succ fuel ih =>
    obtain ⟨m, _, -, h⟩ := decTry_eq_done h
    split at h
    · cases h
      omega
    split at h
    · have := ih h
      omega
    · cases h

theorem Header.decode_le {buf : List Byte} {unsecured : Bool} {off : ℕ} {header : Header}
    (h : Header.decode buf unsecured = .done off (header, macPayloadOffset)) :
    macPayloadOffset ≤ off := by
  obtain ⟨_, _, -, h⟩ := decTry_eq_done h
  dsimp only at h
  split at h
  swap
  · cases h
  obtain ⟨_, _, -, h⟩ := decTry_eq_done h
  obtain ⟨_, _, -, h⟩ := decTry_eq_done h
  obtain ⟨_, _, -, h⟩ := decTry_eq_done h
  unfold decodeElements at h
  split at h
  split at h
  all_goals try cases h
  next hpart =>
    unfold decodePayloadPart at hpart
    split at hpart
    · exact decodePayloadIes_le hpart
    · cases hpart
      exact le_rfl

/-! ## Frames that pass the checks -/

theorem SecurityLevel.micLen_le (level : SecurityLevel) : level.micLen ≤ 16 := by
  cases level <;> decide

section

variable {header : Header} {dataOffset dataLen micLen : ℕ} {security : Security}
  (h : incomingFrameInfo keys header macPayloadOffset dataOffset dataLen micLen
    security = some info)
include h

theorem incomingFrameInfo_eq_some :
    ∃ key nonce, info = ⟨header.frameType, macPayloadOffset, dataOffset, dataLen,
      micLen, some (security.level, key, nonce)⟩ := by
  obtain ⟨_, -, h⟩ := bind_eq_some_iff.mp h
  obtain ⟨key, -, h⟩ := bind_eq_some_iff.mp h
  obtain ⟨_, -, h⟩ := bind_eq_some_iff.mp h
  obtain ⟨_, -, h⟩ := bind_eq_some_iff.mp h
  obtain ⟨_, -, h⟩ := bind_eq_some_iff.mp h
  exact ⟨key, _, (some.inj h).symm⟩

theorem incomingFrameInfo_dataLen (n : ℕ) :
    incomingFrameInfo keys header macPayloadOffset dataOffset n micLen security =
      some { info with dataLen := n } := by
  obtain ⟨_, hversion, h⟩ := bind_eq_some_iff.mp h
  obtain ⟨_, hkey, h⟩ := bind_eq_some_iff.mp h
  obtain ⟨_, haddr, h⟩ := bind_eq_some_iff.mp h
  obtain ⟨_, hcounter, h⟩ := bind_eq_some_iff.mp h
  obtain ⟨_, hvalid, h⟩ := bind_eq_some_iff.mp h
  cases h
  simp only [incomingFrameInfo, hversion, hkey, haddr, hcounter, hvalid, bind, bind_some]
  rfl

end

/-- What is known of a frame with security that passes the checks. -/
structure FrameInfo.Passed (r : Reception) (info : FrameInfo) (level : SecurityLevel)
    (key : Block) (nonce : List Byte) : Prop where
  securityParams : info.securityParams = some (level, key, nonce)
  dataLen : info.dataLen = r.frameLen - info.dataOffset - info.micLen
  ordered : info.macPayloadOffset ≤ info.dataOffset
  mic : info.micLen ≤ 16
  micLen : r.micLen = info.micLen

theorem Reception.exists_passed {r : Reception} (h : r.frameInfo keys = some info) :
    ∃ level key nonce, info.Passed r level key nonce := by
  obtain ⟨⟨_, header, _⟩, hheader, h⟩ := bind_eq_some_iff.mp h
  obtain ⟨security, hsecurity, h⟩ := bind_eq_some_iff.mp h
  obtain ⟨key, nonce, rfl⟩ := incomingFrameInfo_eq_some h
  have hmicLen : r.micLen = security.level.micLen := by
    rw [Reception.micLen, hheader]
    dsimp only
    rw [Reception.micLenOf, hsecurity]
  obtain ⟨_, -, hdecode⟩ := bind_eq_some_iff.mp hheader
  split at hdecode
  next hdone =>
    cases hdecode
    exact ⟨_, key, nonce, rfl, rfl, Header.decode_le hdone, SecurityLevel.micLen_le _, hmicLen⟩
  next => cases hdecode

namespace FrameInfo

variable {cipher : Cipher} {r : Reception} {info : FrameInfo}
  {level : SecurityLevel} {key : Block} {nonce : List Byte} {profile : Profile}

def request (info : FrameInfo) (buf : List Byte) : CryptFunctionParameters :=
  { buf := buf
    aOff := psduOffset
    mOff := psduOffset + info.openLen
    mLen := info.unsecuredLen - info.openLen
    micLen := info.micLen
    confidential := info.encryptionNeeded
    encrypting := true }

section

variable (h : info.Passed r level key nonce)
include h

theorem Passed.unsecuredLen_eq (hholds : info.dataOffset + info.micLen ≤ r.frameLen) :
    info.unsecuredLen + info.micLen = r.frameLen := by
  have hdata := h.dataLen
  unfold unsecuredLen
  omega

theorem Passed.openLen_le : info.openLen ≤ info.unsecuredLen := by
  have hordered := h.ordered
  unfold openLen
  split
  · unfold unsecuredLen
    omega
  · exact le_rfl

theorem Passed.ccmEncryptRanges_eq (htype : info.frameType ≠ .beacon ∧ info.frameType ≠ .macCommand)
    (hsmall : info.unsecuredLen < 2 ^ 32) : info.ccmEncryptRanges profile =
      some (info.openLen, info.unsecuredLen - info.openLen) := by
  have hunsecured : info.unsecuredLength profile = some info.unsecuredLen := by
    rw [unsecuredLength, add_of_lt profile hsmall]
    rfl
  have hordered := h.openLen_le
  have hguard : (guard (info.frameType ≠ .beacon ∧ info.frameType ≠ .macCommand) :
      Option Unit) = some () := if_pos htype
  unfold ccmEncryptRanges
  simp only [hguard, hunsecured, bind, bind_some]
  unfold openLen at hordered ⊢
  split
  next hplain =>
    have hnot : info.encryptionNeeded = false := by simpa using hplain
    rw [hnot, if_neg Bool.false_ne_true, Nat.sub_self]
    rfl
  next hneeded =>
  have hneeded : info.encryptionNeeded := by simpa using hneeded
  rw [if_pos hneeded] at hordered ⊢
  rw [sub_of_le profile hordered]
  rfl

theorem Passed.ranges_eq (hsmall : info.unsecuredLen < 2 ^ 32) {mOff mLen : ℕ}
    (hranges : info.ccmEncryptRanges profile = some (mOff, mLen)) :
    mOff = info.openLen ∧ mLen = info.unsecuredLen - info.openLen := by
  have htype : info.frameType ≠ .beacon ∧ info.frameType ≠ .macCommand := by
    obtain ⟨_, hguard, -⟩ := bind_eq_some_iff.mp hranges
    by_contra hnot
    rw [guard, if_neg hnot] at hguard
    cases hguard
  rw [h.ccmEncryptRanges_eq htype hsmall] at hranges
  cases hranges
  exact ⟨rfl, rfl⟩

section

variable (hcomplete : r.Complete cipher info)
include hcomplete

/-- A frame that passed the checks asks the engine for ranges in its buffer. -/
theorem Passed.request_encryption {buf : List Byte} (hbuf : r.buf.length ≤ buf.length) :
    (info.request buf).Encryption := by
  have hlen := h.unsecuredLen_eq hcomplete.holds
  have hopen := h.openLen_le
  have hfits := hcomplete.fits
  have hshort := hcomplete.short
  refine ⟨rfl, ?_, Nat.le_add_right _ _, ?_, ?_, h.mic⟩
  · intro hplain
    change info.unsecuredLen - info.openLen = 0
    have hplain : info.encryptionNeeded = false := hplain
    rw [openLen, hplain, if_neg Bool.false_ne_true, Nat.sub_self]
  · change psduOffset + info.openLen + (info.unsecuredLen - info.openLen) + info.micLen ≤ buf.length
    omega
  · change psduOffset + info.openLen + (info.unsecuredLen - info.openLen) + info.micLen < 2 ^ 32
    have : psduOffset + maxFrameSize < 2 ^ 32 := by decide
    omega

theorem Passed.request_mData {cryptBuf : List Byte} :
    (info.request (copyAt cryptBuf 0 r.buf)).mData = info.mData r.frame := by
  have hlen := h.unsecuredLen_eq hcomplete.holds
  have hopen := h.openLen_le
  have hfits := hcomplete.fits
  change part (copyAt cryptBuf 0 r.buf) (psduOffset + info.openLen)
    (info.unsecuredLen - info.openLen) = _
  rw [part_copyAt_zero (by omega), mData, Reception.frame, part_part (by omega)]

theorem Passed.length_unsecured : (info.unsecured cipher r.frame).length = info.unsecuredLen := by
  have hlen := h.unsecuredLen_eq hcomplete.holds
  have hopen := h.openLen_le
  have hfits := hcomplete.fits
  have hframe : r.frame.length = r.frameLen := length_part hfits
  rw [unsecured, h.securityParams]
  rw [List.length_append, Ccm.length_crypt, aData, mData, List.length_take, length_part (by omega)]
  omega

theorem Passed.take_encryptedBuf {cryptBuf tag : List Byte}
    (hcopy : r.buf.length ≤ cryptBuf.length) (htag : tag.length = info.micLen) :
    let buf := encryptedBuf cipher key nonce (info.request (copyAt cryptBuf 0 r.buf)) tag
    buf.length = cryptBuf.length ∧
      part buf psduOffset info.unsecuredLen = info.unsecured cipher r.frame := by
  have hlen := h.unsecuredLen_eq hcomplete.holds
  have hopen := h.openLen_le
  have hfits := hcomplete.fits
  have hframe : r.frame.length = r.frameLen := length_part hfits
  have hcopied : (copyAt cryptBuf 0 r.buf).length = cryptBuf.length := length_copyAt (by omega)
  have hdata : (Ccm.crypt cipher key nonce (info.mData r.frame)).length =
      info.unsecuredLen - info.openLen := by
    rw [Ccm.length_crypt, mData, length_part (by omega)]
  have hplain : (copyAt (copyAt cryptBuf 0 r.buf) (psduOffset + info.openLen)
      (Ccm.crypt cipher key nonce (info.mData r.frame))).length = cryptBuf.length := by
    rw [length_copyAt (by omega), hcopied]
  intro buf
  have hbuf : buf = copyAt (copyAt (copyAt cryptBuf 0 r.buf)
      (psduOffset + info.openLen) (Ccm.crypt cipher key nonce (info.mData r.frame)))
      (psduOffset + info.openLen + (info.unsecuredLen - info.openLen)) tag := by
    change encryptedBuf cipher key nonce _ tag = _
    rw [encryptedBuf, h.request_mData hcomplete]
    rfl
  refine ⟨?_, ?_⟩
  · rw [hbuf, length_copyAt (by omega), hplain]
  · rw [hbuf, part_eq_drop_take, take_copyAt_of_le (by omega) (by omega), show psduOffset +
      info.unsecuredLen = psduOffset + info.openLen + (Ccm.crypt cipher key nonce
      (info.mData r.frame)).length by omega, take_copyAt_end (by omega),
      List.drop_append_of_le_length (by rw [List.length_take]; omega), unsecured, h.securityParams]
    dsimp only
    congr 1
    have hopened : part (part r.buf psduOffset r.frameLen) 0 info.openLen =
        part r.buf (psduOffset + 0) info.openLen := part_part (by omega)
    rw [← part_eq_drop_take, part_copyAt_zero (by omega)]
    exact hopened.symm

end

end

end FrameInfo

/-! ## The last step of a reception -/

namespace Framer

variable {profile : Profile} {cipher : Cipher} {keys : KeyProcedure}
  {s s' : Framer} {info : FrameInfo} {level : SecurityLevel} {key : Block}
  {nonce : List Byte} {buf : List Byte}

theorem decodeDone_eq {off macPayloadOffset : ℕ} {header : Header}
    (h : Header.decode buf true = .done off (header, macPayloadOffset)) :
    decodeDone buf true = some (some (off, header, macPayloadOffset)) := by
  rw [decodeDone, h]

def yielded (s : Framer) (buf : List Byte) (d : Delivery) : Framer :=
  { s with
    rxState := .idle
    cryptBuf := some buf
    delivered := s.delivered ++ [(s.received, d)] }

theorem yieldFrame_eq (profile : Profile) (lqi : Byte) (h : info.Passed s.received level key nonce)
    (hcomplete : s.received.Complete cipher info) (hmic : info.micLen ≠ 0)
    (hbuf : part buf psduOffset info.unsecuredLen = info.unsecured cipher s.received.frame)
    (hroom : psduOffset + maxFrameSize ≤ buf.length) :
    ∃ d : Delivery, d.Exact cipher info s.received ∧
      s.yieldFrame profile info buf lqi = some (s.yielded buf d) := by
  obtain ⟨bytes, payload, header, hsplit, hparses⟩ := hcomplete.header
  have hlen := h.unsecuredLen_eq hcomplete.holds
  have hshort := hcomplete.short
  have hsize : bytes.length + payload.length = info.unsecuredLen := by
    rw [← List.length_append, ← hsplit, h.length_unsecured hcomplete]
  have hmax : maxFrameSize = 127 := rfl
  have hlqi : lqiSize = 1 := rfl
  have hunsecured : info.unsecuredLength profile = some info.unsecuredLen := by
    rw [FrameInfo.unsecuredLength, add_of_lt profile]
    · rfl
    · change info.unsecuredLen < _
      omega
  have hguard : (guard (psduOffset + maxFrameSize ≤ buf.length) : Option Unit) =
      some () := if_pos hroom
  -- the parser finds the header of the decrypted frame, whatever follows
  obtain ⟨macPayloadOffset, hdecode⟩ : ∃ macPayloadOffset,
      Header.decode (part buf psduOffset maxFrameSize) true =
        .done bytes.length (header, macPayloadOffset) := by
    rw [show maxFrameSize = info.unsecuredLen + (maxFrameSize - info.unsecuredLen)
      by omega, part_add, hbuf, hsplit, List.append_assoc]
    exact hparses _
  have hframe : frameBuffer buf = some (part buf psduOffset (buf.length - lqiSize - psduOffset)) :=
    if_pos (by omega)
  have hdata : (sub 32 profile info.unsecuredLen bytes.length).toOption = some payload.length := by
    rw [sub_of_le profile (by omega), ← hsize, Nat.add_sub_cancel_left]
    rfl
  refine ⟨⟨part buf psduOffset (buf.length - lqiSize - psduOffset), header, lqi,
    bytes.length, payload.length⟩, ⟨bytes, hparses, ?_⟩, ?_⟩
  · have hpayload : part (part buf psduOffset info.unsecuredLen) bytes.length
        payload.length = payload := by
      rw [hbuf, hsplit, part, List.drop_left, List.take_length]
    rw [hsplit, Delivery.payload]
    dsimp only
    rw [part_part (by omega), ← part_part (by omega : _ ≤ info.unsecuredLen), hpayload]
  · unfold yieldFrame
    simp only [hunsecured, hguard, decodeDone_eq hdecode, hframe, hdata, bind, bind_some]
    rfl

theorem room_of_yieldFrame {lqi : Byte} (h : s.yieldFrame profile info buf lqi = some s') :
    psduOffset + maxFrameSize ≤ buf.length := by
  obtain ⟨_, -, h⟩ := bind_eq_some_iff.mp h
  obtain ⟨_, hguard, -⟩ := bind_eq_some_iff.mp h
  by_contra hroom
  rw [guard, if_neg hroom] at hguard
  cases hguard

end Framer

end TockKernel.Net

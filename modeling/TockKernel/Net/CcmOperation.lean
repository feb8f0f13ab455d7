import TockKernel.Net.VirtualAesCcm

/-!
# An operation of the CCM engine

The phases of a request that is made with `encrypting` set: it is queued, the
hardware chains the blocks, the hardware applies the key stream. The last phase
writes a tag behind the message and always says that it is valid.
-/

namespace TockKernel.Net

open Arithmetic (Profile)
open Ccm (Block Cipher)
open Ccm VirtualAES128CCM AesCall Option List

/-- A request to encrypt that is inside its buffer. Without confidentiality there
is no message. -/
structure CryptFunctionParameters.Encryption (p : CryptFunctionParameters) : Prop where
  encrypting : p.encrypting = true
  message : p.confidential = false → p.mLen = 0
  ordered : p.aOff ≤ p.mOff
  fits : p.mOff + p.mLen + p.micLen ≤ p.buf.length
  small : p.mOff + p.mLen + p.micLen < 2 ^ 32
  tag : p.micLen ≤ 16

namespace CryptFunctionParameters

variable {p : CryptFunctionParameters} {profile : Profile}

def mData (p : CryptFunctionParameters) : List Byte := part p.buf p.mOff p.mLen

theorem Encryption.length_mData (h : p.Encryption) : p.mData.length = p.mLen :=
  length_part (by have := h.fits; omega)

theorem Encryption.mEnd_eq (h : p.Encryption) : p.mEnd profile = some (p.mOff + p.mLen) := by
  have hsmall := h.small
  rw [mEnd, Arithmetic.add_of_lt _ (by omega)]
  rfl

theorem Encryption.inRange_eq (h : p.Encryption) : p.inRange profile = some true := by
  rw [inRange, if_pos h.ordered, h.mEnd_eq]
  simp [Arithmetic.add_of_lt profile h.small, Except.toOption, decide_eq_true h.fits]

end CryptFunctionParameters

structure BufferLayout (authLen encLen mLen room : ℕ) : Prop where
  first : 16 ≤ authLen
  whole : 16 ∣ authLen
  message : encLen = authLen + 16 * Ccm.blocks mLen
  fits : encLen ≤ room

theorem encodeCcmBuffer_layout {nonce aData mData bytes : List Byte}
    {micLen room n authLen encLen : ℕ}
    (h : encodeCcmBuffer nonce micLen aData mData room = .done n (bytes, (authLen, encLen))) :
    BufferLayout authLen encLen mData.length room := by
  unfold encodeCcmBuffer at h
  split at h
  · cases h
  obtain ⟨_, _, _, -, h⟩ := encTry_eq_done h
  obtain ⟨_, _, _, -, h⟩ := encTry_eq_done h
  obtain ⟨_, _, _, -, h⟩ := encTry_eq_done h
  dsimp only at h
  split at h
  · cases h
  obtain ⟨m4, _, _, hfourth, h⟩ := encTry_eq_done h
  have hm4 : m4 = mData.length := (encodeBytes_eq_done hfourth).1
  split at h
  · cases h
  cases h
  refine ⟨by omega, Dvd.intro_left _ rfl, ?_, by omega⟩
  rw [blocks]
  omega

namespace VirtualAES128CCM

variable {e e' : VirtualAES128CCM} {p : CryptFunctionParameters} {key : Block}
  {nonce : List Byte} {profile : Profile} {cipher : Cipher}

/-! ## The phases -/

structure Free (e : VirtualAES128CCM) : Prop where
  queuedUp : e.queuedUp = none
  state : e.state = .idle

structure Queued (p : CryptFunctionParameters) (key : Block) (nonce : List Byte)
    (e : VirtualAES128CCM) : Prop where
  queuedUp : e.queuedUp = some p
  state : e.state = .idle
  sameKey : e.key = key
  sameNonce : e.nonce = nonce

structure Working (p : CryptFunctionParameters) (key : Block) (nonce : List Byte)
    (room : ℕ) (e : VirtualAES128CCM) : Prop where
  queuedUp : e.queuedUp = none
  sameKey : e.key = key
  sameNonce : e.nonce = nonce
  confidential : e.confidential = p.confidential
  encrypting : e.encrypting = true
  buf : e.buf = some p.buf
  pos : e.pos = (p.aOff, p.mOff, p.mLen, p.micLen)
  layout : BufferLayout e.cryptAuthLen e.cryptEncLen p.mLen room

variable {room : ℕ} {cbuf : List Byte} {done : Option CryptDone}

theorem Working.not_reversed (h : Working p key nonce room e) : e.reversed = false := by
  rw [reversed, h.encrypting, Bool.not_true, Bool.and_false]

def authEnd (e : VirtualAES128CCM) : ℕ :=
  if e.confidential then e.cryptEncLen else e.cryptAuthLen

structure Authenticating (p : CryptFunctionParameters) (key : Block)
    (nonce cbuf : List Byte) (e : VirtualAES128CCM) : Prop extends
    Working p key nonce cbuf.length e where
  state : e.state = .auth
  aes : e.aes = some ⟨.cbc, key, 0, cbuf, 0, e.authEnd⟩

structure Encrypting (p : CryptFunctionParameters) (key : Block)
    (nonce cbuf : List Byte) (e : VirtualAES128CCM) : Prop extends
    Working p key nonce cbuf.length e where
  state : e.state = .encrypt
  aes : e.aes = some ⟨.ctr, key, Ccm.counter nonce, cbuf, e.cryptAuthLen - 16, e.cryptEncLen⟩
  message : part cbuf e.cryptAuthLen (16 * Ccm.blocks p.mLen) = Ccm.pad p.mData

def Processing (p : CryptFunctionParameters) (key : Block) (nonce : List Byte)
    (e : VirtualAES128CCM) : Prop :=
  Queued p key nonce e ∨ (∃ cbuf, Authenticating p key nonce cbuf e) ∨
    ∃ cbuf, Encrypting p key nonce cbuf e

/-! ## From the queue to the hardware -/

def prepared (e : VirtualAES128CCM) (cbuf : List Byte) (authLen encLen : ℕ) : VirtualAES128CCM :=
  { e with
    cryptBuf := some cbuf
    cryptAuthLen := authLen
    cryptEncLen := encLen }

theorem prepareCcmBuffer_cases (e : VirtualAES128CCM) (nonce : List Byte)
    (micLen : ℕ) (aData mData : List Byte) :
    (∃ error, e.prepareCcmBuffer nonce micLen aData mData = (.error error, e)) ∨
      ∃ cbuf authLen encLen, BufferLayout authLen encLen mData.length cbuf.length ∧
        e.prepareCcmBuffer nonce micLen aData mData = (.ok (), e.prepared cbuf authLen encLen) := by
  unfold prepareCcmBuffer
  split
  · exact .inl ⟨_, rfl⟩
  next cbuf hcbuf =>
  split
  next n bytes authLen encLen hencode =>
    have hlayout := encodeCcmBuffer_layout hencode
    refine .inr ⟨copyAt cbuf 0 bytes, authLen, encLen, ⟨hlayout.first,
      hlayout.whole, hlayout.message, hlayout.fits.trans ?_⟩, rfl⟩
    rw [copyAt, length_append, length_append, length_drop]
    omega
  all_goals exact .inl ⟨_, rfl⟩

theorem startCcmAuth_eq (hidle : e.state = .idle) (hcbuf : e.cryptBuf = some cbuf) :
    e.startCcmAuth = some (.ok (), { e with
      cryptBuf := none
      aes := some ⟨.cbc, e.key, 0, cbuf, 0, e.authEnd⟩
      state := .auth }) := by
  unfold startCcmAuth
  rw [if_neg (by simp [hidle]), hcbuf]
  rfl

def directed (e : VirtualAES128CCM) (p : CryptFunctionParameters) : VirtualAES128CCM :=
  { e with confidential := p.confidential, encrypting := p.encrypting }

theorem cryptR_eq (hp : p.Encryption) (hidle : e.state = .idle) : e.cryptR profile p =
      match (e.directed p).prepareCcmBuffer e.nonce p.micLen
          (part p.buf p.aOff (p.mOff - p.aOff)) p.mData with
      | (.error error, e) => some (.error (error, p.buf), e)
      | (.ok (), e) =>
        e.startCcmAuth.bind fun
        | (.error error, e) => some (.error (error, p.buf), e)
        | (.ok (), e) =>
          some (.ok (), { e with
            buf := some p.buf
            pos := (p.aOff, p.mOff, p.mLen, p.micLen) }) := by
  have hfits := hp.fits
  have hguard : (guard (p.mOff ≤ p.mOff + p.mLen ∧
      p.mOff + p.mLen ≤ p.buf.length) : Option Unit) = some () :=
    if_pos ⟨by omega, by omega⟩
  have hforward : (!p.confidential || p.encrypting) = true := by
    rw [hp.encrypting, Bool.or_true]
  unfold cryptR
  rw [if_neg (by simp [hidle])]
  simp only [hp.inRange_eq, hp.mEnd_eq, hguard, hforward, bind, bind_some]
  rfl

theorem cryptR_cases (hp : p.Encryption) (hidle : e.state = .idle) (hqueue : e.queuedUp = none)
    {result : Except (ErrorCode × List Byte) Unit × VirtualAES128CCM}
    (h : e.cryptR profile p = some result) :
    (∃ error e', result = (.error error, e') ∧ Free e') ∨ ∃ e' cbuf, result = (.ok (), e') ∧
        Authenticating p e.key e.nonce cbuf e' := by
  rw [cryptR_eq hp hidle] at h
  obtain ⟨error, hprepare⟩ | ⟨cbuf, authLen, encLen, hlayout, hprepare⟩ :=
    prepareCcmBuffer_cases (e.directed p) e.nonce p.micLen
      (part p.buf p.aOff (p.mOff - p.aOff)) p.mData
  · rw [hprepare] at h
    cases h
    exact .inl ⟨_, _, rfl, hqueue, hidle⟩
  rw [hprepare] at h
  rw [hp.length_mData] at hlayout
  have hstart := startCcmAuth_eq (e := (e.directed p).prepared cbuf authLen encLen) hidle rfl
  dsimp only at h
  rw [hstart] at h
  cases h
  refine .inr ⟨_, cbuf, rfl, ?_⟩
  exact
    { queuedUp := hqueue
      sameKey := rfl
      sameNonce := rfl
      confidential := rfl
      encrypting := hp.encrypting
      buf := rfl
      pos := rfl
      layout := hlayout
      state := rfl
      aes := rfl }

theorem Queued.doNextOp (hp : p.Encryption) (h : Queued p key nonce e)
    {e' : VirtualAES128CCM} (hop : e.doNextOp profile = some (e', done)) :
    (done = none ∧ Processing p key nonce e') ∨ (Free e' ∧ ∀ d ∈ done, d.tagIsValid = false) := by
  unfold VirtualAES128CCM.doNextOp at hop
  rw [h.queuedUp] at hop
  split at hop
  · cases hop
    exact .inl ⟨rfl, .inl h⟩
  obtain ⟨_, hres, hop⟩ := map_eq_some_iff.mp hop
  have hidle : ({ e with inflight := true, queuedUp := none } :
      VirtualAES128CCM).state = .idle := h.state
  obtain ⟨_, e1, rfl, hfree⟩ | ⟨e1, cbuf, rfl, hauth⟩ := cryptR_cases hp hidle rfl hres
  · cases hop
    refine .inr ⟨⟨rfl, hfree.state⟩, ?_⟩
    rintro d hd
    obtain ⟨-, -, rfl⟩ := map_eq_some_iff.mp hd
    rfl
  cases hop
  rw [← h.sameKey, ← h.sameNonce]
  exact .inl ⟨rfl, .inr (.inl ⟨cbuf, hauth⟩)⟩

/-! ## The hardware -/

theorem part_message {m : List Byte} {authLen n : ℕ} (hfits : authLen + m.length ≤ cbuf.length) :
    part (copyAt (copyAt cbuf authLen m) (authLen + m.length)
        (replicate n 0)) authLen (m.length + n) = m ++ replicate n 0 := by
  have hlen := length_copyAt hfits
  have hend : (copyAt (copyAt cbuf authLen m) (authLen + m.length) (replicate n 0)).take
        (authLen + m.length + (replicate n (0 : Byte)).length) = _ :=
    take_copyAt_end (by omega)
  rw [length_replicate] at hend
  rw [part_eq_drop_take, ← Nat.add_assoc, hend, take_copyAt_end (by omega),
    append_assoc, drop_left']
  rw [length_take]
  omega

theorem length_result_cbc {stop : ℕ} (hwhole : 16 ∣ stop) (hstop : stop ≤ cbuf.length) :
    (result cipher ⟨.cbc, key, 0, cbuf, 0, stop⟩).length = cbuf.length := by
  simp only [result, length_append, length_take, length_drop, length_cbc]
  omega

theorem authEnd_whole (h : Working p key nonce room e) : 16 ∣ e.authEnd ∧ e.authEnd ≤ room := by
  have hwhole := h.layout.whole
  have hmessage := h.layout.message
  have hfits := h.layout.fits
  unfold authEnd
  split <;> constructor <;> omega

theorem restoreMessage_eq (h : Working p key nonce room e) : (e.returned cbuf).restoreMessage =
      e.returned (copyAt (copyAt (copyAt cbuf (e.cryptAuthLen - 16)
          (part cbuf (e.cryptEncLen - 16) 16)) e.cryptAuthLen p.mData) (e.cryptAuthLen + p.mLen)
        (replicate (e.cryptEncLen - (e.cryptAuthLen + p.mLen)) 0)) := by
  unfold restoreMessage returned
  simp [h.buf, h.pos, CryptFunctionParameters.mData]

def streaming (e : VirtualAES128CCM) (cbuf : List Byte) : VirtualAES128CCM :=
  { e with
    cryptBuf := none
    aes := some ⟨.ctr, e.key, Ccm.counter e.nonce, cbuf, e.cryptAuthLen - 16, e.cryptEncLen⟩
    state := .encrypt }

theorem startCcmEncrypt_eq (hstate : e.state = .auth) :
    (e.returned cbuf).startCcmEncrypt = some (.ok (), e.streaming cbuf) := by
  unfold startCcmEncrypt returned
  rw [if_neg (by simp [hstate])]
  rfl

theorem exists_restored (hp : p.Encryption) (h : Working p key nonce cbuf.length e) :
    ∃ cbuf', cbuf'.length = cbuf.length ∧
      part cbuf' e.cryptAuthLen (16 * blocks p.mLen) = pad p.mData ∧
      (if e.confidential then (e.returned cbuf).restoreMessage
        else e.returned cbuf) = e.returned cbuf' := by
  have hfirst := h.layout.first
  have hmessage := h.layout.message
  have hfits := h.layout.fits
  have hblocks := le_blocks p.mLen
  have hm := hp.length_mData
  cases hconfidential : e.confidential with
  | false =>
    have hnone : p.mLen = 0 := hp.message (by rw [← h.confidential, hconfidential])
    refine ⟨cbuf, rfl, ?_, rfl⟩
    simp [CryptFunctionParameters.mData, hnone, part, pad, blocks]
  | true =>
    have htag : (part cbuf (e.cryptEncLen - 16) 16).length = 16 := length_part (by omega)
    have hlen : (copyAt cbuf (e.cryptAuthLen - 16)
        (part cbuf (e.cryptEncLen - 16) 16)).length = cbuf.length :=
      length_copyAt (by omega)
    refine ⟨_, ?_, ?_, restoreMessage_eq h⟩
    · rw [length_copyAt, length_copyAt, hlen]
      · omega
      · rw [length_copyAt (by omega), length_replicate]
        omega
    · have hpadding : e.cryptEncLen - (e.cryptAuthLen + p.mLen) =
          16 * blocks p.mData.length - p.mData.length := by
        rw [hm]
        omega
      have hwhole : 16 * blocks p.mLen = p.mData.length +
          (16 * blocks p.mData.length - p.mData.length) := by
        omega
      rw [hpadding, hwhole, ← hm, part_message (by omega)]
      rfl

theorem cryptDone_auth {cbuf' : List Byte} (hstate : e.state = .auth)
    (hforward : e.reversed = false)
    (hrestored : (if e.confidential then (e.returned cbuf).restoreMessage else e.returned cbuf) =
      e.returned cbuf') : e.cryptDone cbuf = some (e.streaming cbuf', none) := by
  have hreturned : (e.returned cbuf).state = .auth := hstate
  have hreversed : (e.returned cbuf).reversed = false := hforward
  have hconfidential : (e.returned cbuf).confidential = e.confidential := rfl
  unfold cryptDone
  dsimp only
  rw [hreturned]
  rw [hreversed, hconfidential, hrestored, startCcmEncrypt_eq hstate]
  rfl

theorem Authenticating.aesDone (hp : p.Encryption) (h : Authenticating p key nonce cbuf e) :
    ∃ e' cbuf', e.aesDone cipher = some (e', none) ∧ Encrypting p key nonce cbuf' e' := by
  have hend := authEnd_whole h.toWorking
  have hres : (result cipher ⟨.cbc, key, 0, cbuf, 0, e.authEnd⟩).length =
      cbuf.length := length_result_cbc hend.1 hend.2
  have hworking := h.toWorking
  rw [← hres] at hworking
  obtain ⟨cbuf', hlen, hmessage, hrestored⟩ := exists_restored hp hworking
  refine ⟨e.streaming cbuf', cbuf', ?_, ?_⟩
  · unfold VirtualAES128CCM.aesDone
    rw [h.aes]
    exact cryptDone_auth h.state h.not_reversed hrestored
  · rw [← hlen] at hworking
    exact
      { queuedUp := hworking.queuedUp
        sameKey := hworking.sameKey
        sameNonce := hworking.sameNonce
        confidential := hworking.confidential
        encrypting := hworking.encrypting
        buf := hworking.buf
        pos := hworking.pos
        layout := hworking.layout
        state := rfl
        aes := by rw [← h.sameKey, ← h.sameNonce]; rfl
        message := hmessage }

theorem length_result_ctr (cipher : Cipher) (key iv : Block) {start stop : ℕ}
    (hwhole : (stop - start) % 16 = 0) (hstart : start ≤ stop) (hstop : stop ≤ cbuf.length) :
    (result cipher ⟨.ctr, key, iv, cbuf, start, stop⟩).length = cbuf.length := by
  simp only [result, length_append, length_take, length_drop, length_ctr]
  omega

theorem part_result_ctr (cipher : Cipher) (key iv : Block) {authLen n len : ℕ}
    (hfirst : 16 ≤ authLen) (hfits : authLen + 16 * n ≤ cbuf.length) (hlen : len ≤ 16 * n) :
    part (result cipher ⟨.ctr, key, iv, cbuf, authLen - 16, authLen + 16 * n⟩) authLen len =
      (ctr cipher key n (iv + 1) (part cbuf authLen (16 * n))).take len := by
  have hspan : authLen + 16 * n - (authLen - 16) = 16 + 16 * n := by omega
  have hcount : (16 + 16 * n) / 16 = n + 1 := by omega
  have hbytes : (cbuf.drop (authLen - 16)).take (16 + 16 * n) =
      part cbuf (authLen - 16) 16 ++ part cbuf authLen (16 * n) := by
    rw [take_add, drop_drop, Nat.sub_add_cancel hfirst]
    rfl
  have hblock : (part cbuf (authLen - 16) 16).length = 16 := length_part (by omega)
  have hprefix : (cbuf.take (authLen - 16)).length = authLen - 16 := by
    rw [length_take]
    omega
  have hstream : (ctr cipher key (n + 1) iv (part cbuf (authLen - 16) 16 ++
      part cbuf authLen (16 * n))).length = 16 * (n + 1) := length_ctr ..
  simp only [result, hspan, hcount, hbytes, part]
  rw [append_assoc, drop_append, drop_eq_nil_of_le (by omega), hprefix,
    show authLen - (authLen - 16) = 16 by omega]
  change (drop 16 (ctr cipher key (n + 1) iv
    (part cbuf (authLen - 16) 16 ++ part cbuf authLen (16 * n)) ++ _)).take len = _
  rw [drop_append_of_le_length (by omega), ctr_append _ _ hblock, take_append_of_le_length]
  · rfl
  · rw [length_ctr]
    exact hlen

/-- What the engine hands back: the message combined with the key stream, and a
tag after it. -/
def encryptedBuf (cipher : Cipher) (key : Block) (nonce : List Byte)
    (p : CryptFunctionParameters) (tag : List Byte) : List Byte :=
  copyAt (copyAt p.buf p.mOff (Ccm.crypt cipher key nonce p.mData)) (p.mOff + p.mLen) tag

theorem cryptDone_encrypt (h : Working p key nonce room e) (hstate : e.state = .encrypt)
    (hmessage : part cbuf e.cryptAuthLen p.mLen = Ccm.crypt cipher key nonce p.mData) :
    ∃ e', Free e' ∧ e.cryptDone cbuf = some (e', some
      ⟨encryptedBuf cipher key nonce p (part cbuf (e.cryptAuthLen - 16) p.micLen),
        true, true⟩) := by
  have hreturned : (e.returned cbuf).state = .encrypt := hstate
  have hreversed : (e.returned cbuf).reversed = false := h.not_reversed
  have hbuf : (e.returned cbuf).buf = some p.buf := h.buf
  have hcbuf : (e.returned cbuf).cryptBuf = some cbuf := rfl
  have hpos : (e.returned cbuf).pos = (p.aOff, p.mOff, p.mLen, p.micLen) := h.pos
  have hencrypting : (e.returned cbuf).encrypting := h.encrypting
  have hauthLen : (e.returned cbuf).cryptAuthLen = e.cryptAuthLen := rfl
  unfold cryptDone
  dsimp only
  rw [hreturned]
  rw [hreversed, endCcm]
  simp only [hbuf, hcbuf, hpos, hencrypting, hauthLen, hmessage]
  exact ⟨_, ⟨rfl, rfl⟩, rfl⟩

theorem Encrypting.aesDone (hp : p.Encryption) (h : Encrypting p key nonce cbuf e) :
    ∃ e' tag, tag.length = p.micLen ∧ Free e' ∧ e.aesDone cipher =
        some (e', some ⟨encryptedBuf cipher key nonce p tag, true, true⟩) := by
  have hfirst := h.layout.first
  have hmessage := h.layout.message
  have hfits := h.layout.fits
  have hblocks := Ccm.le_blocks p.mLen
  have htag := hp.tag
  have hpart := part_result_ctr cipher key (Ccm.counter nonce) hfirst (hmessage ▸ hfits) hblocks
  rw [← hmessage, h.message] at hpart
  have hcrypt : (Ccm.ctr cipher key (Ccm.blocks p.mLen) (Ccm.counter nonce + 1)
      (Ccm.pad p.mData)).take p.mLen = Ccm.crypt cipher key nonce p.mData := by
    rw [Ccm.crypt, hp.length_mData]
  obtain ⟨e', hfree, hdone⟩ := cryptDone_encrypt h.toWorking h.state (hpart.trans hcrypt)
  have hengine : e.aesDone cipher = e.cryptDone (result cipher
      ⟨.ctr, key, Ccm.counter nonce, cbuf, e.cryptAuthLen - 16, e.cryptEncLen⟩) := by
    unfold VirtualAES128CCM.aesDone
    rw [h.aes]
  have hlen := length_result_ctr cipher key (Ccm.counter nonce)
    (show (e.cryptEncLen - (e.cryptAuthLen - 16)) % 16 = 0 by omega)
    (show e.cryptAuthLen - 16 ≤ e.cryptEncLen by omega) hfits
  refine ⟨e', _, length_part ?_, hfree, hengine.trans hdone⟩
  omega

/-! ## Progress -/

theorem encTry_bytes {off : ℕ} {bs : List Byte}
    {next : ℕ → List Byte → Unit → SResult α} (h : off + bs.length ≤ room) :
    encTry room off (encodeBytes bs) next = next (off + bs.length) bs () := by
  rw [encTry, if_pos (by omega), encodeBytes, if_neg (by omega)]

theorem encodeCcmBuffer_of_room {aData mData : List Byte} (nonce : List Byte) (micLen : ℕ)
    (hroom : aData.length + mData.length + 48 ≤ room) (hshort : aData.length < 0xff00) :
    ∃ n out, encodeCcmBuffer nonce micLen aData mData room = .done n out := by
  have hlen : ∃ bs, encodeALen aData = encodeBytes bs ∧ bs.length ≤ 2 := by
    unfold encodeALen
    split
    all_goals exact ⟨_, rfl, by simp⟩
  obtain ⟨bs, hbs, hlength⟩ := hlen
  unfold encodeCcmBuffer
  rw [if_neg (by omega), encodeU16, encTry_bytes (by simp; omega), hbs,
    encTry_bytes (by simp; omega), encTry_bytes (by simp; omega)]
  simp only [length_cons, length_nil]
  rw [if_neg (by omega), encTry_bytes (by omega), if_neg (by omega)]
  exact ⟨_, _, rfl⟩

theorem exists_prepared (e : VirtualAES128CCM) {aData mData : List Byte}
    (nonce : List Byte) (micLen : ℕ) (hcbuf : e.cryptBuf = some cbuf)
    (hroom : aData.length + mData.length + 48 ≤ cbuf.length) (hshort : aData.length < 0xff00) :
    ∃ cbuf' authLen encLen, e.prepareCcmBuffer nonce micLen aData mData =
      (.ok (), e.prepared cbuf' authLen encLen) := by
  obtain ⟨n, ⟨bytes, authLen, encLen⟩, hencode⟩ := encodeCcmBuffer_of_room nonce micLen hroom hshort
  refine ⟨copyAt cbuf 0 bytes, authLen, encLen, ?_⟩
  unfold prepareCcmBuffer
  simp only [hcbuf, hencode]
  rfl

theorem Queued.doNextOp_of_room (hp : p.Encryption) (h : Queued p key nonce e)
    (hinflight : e.inflight = false) (hcbuf : e.cryptBuf = some cbuf)
    (hroom : p.mOff - p.aOff + p.mLen + 48 ≤ cbuf.length) (hshort : p.mOff - p.aOff < 0xff00) :
    ∃ e' cbuf', e.doNextOp profile = some (e', none) ∧ Authenticating p key nonce cbuf' e' := by
  have hfits := hp.fits
  have hordered := hp.ordered
  have haData : (part p.buf p.aOff (p.mOff - p.aOff)).length = p.mOff - p.aOff :=
    length_part (by omega)
  -- the engine as the queue hands it to `crypt_r`
  let e1 : VirtualAES128CCM := { e with inflight := true, queuedUp := none }
  have hidle : e1.state = .idle := h.state
  obtain ⟨cbuf', authLen, encLen, hprepared⟩ := exists_prepared (e1.directed p)
    e1.nonce p.micLen hcbuf (haData.symm ▸ hp.length_mData.symm ▸ hroom) (haData.symm ▸ hshort)
  have hstart := startCcmAuth_eq (e := (e1.directed p).prepared cbuf' authLen encLen) hidle rfl
  obtain ⟨_, hres⟩ : ∃ e', e1.cryptR profile p = some (.ok (), e') := by
    rw [cryptR_eq hp hidle, hprepared]
    dsimp only
    rw [hstart]
    exact ⟨_, rfl⟩
  obtain ⟨_, e2, heq, -⟩ | ⟨e2, cbuf2, heq, hauth⟩ := cryptR_cases hp hidle rfl hres
  · cases heq
  cases heq
  have hkey : e1.key = key := h.sameKey
  have hnonce : e1.nonce = nonce := h.sameNonce
  rw [hkey, hnonce] at hauth
  refine ⟨_, cbuf2, ?_, hauth⟩
  unfold VirtualAES128CCM.doNextOp
  rw [hinflight, h.queuedUp]
  exact congrArg (Option.map _) hres

/-! ## Other calls -/

theorem doNextOp_of_empty (h : e.queuedUp = none) : e.doNextOp profile = some (e, none) := by
  unfold doNextOp
  rw [h]
  split <;> rfl

theorem aesDone_of_idle (cipher : Cipher) (h : e.state = .idle) :
    ∃ e', e.aesDone cipher = some (e', none) ∧ e'.state = .idle ∧
      e'.queuedUp = e.queuedUp ∧ e'.key = e.key ∧ e'.nonce = e.nonce := by
  unfold aesDone
  split
  · exact ⟨e, rfl, h, rfl, rfl, rfl⟩
  next call hcall =>
  have hreturned : (e.returned (call.result cipher)).state = .idle := h
  refine ⟨e.returned (call.result cipher), ?_, h, rfl, rfl, rfl⟩
  unfold cryptDone
  dsimp only
  rw [hreturned]

theorem Queued.aesDone (h : Queued p key nonce e) :
    ∃ e', e.aesDone cipher = some (e', none) ∧ Queued p key nonce e' := by
  obtain ⟨e', hdone, hstate, hqueue, hkey, hnonce⟩ := aesDone_of_idle cipher h.state
  exact ⟨e', hdone, hqueue.trans h.queuedUp, hstate, hkey.trans h.sameKey, hnonce.trans h.sameNonce⟩

theorem Free.aesDone (h : Free e) : ∃ e', e.aesDone cipher = some (e', none) ∧ Free e' := by
  obtain ⟨e', hdone, hstate, hqueue, -, -⟩ := aesDone_of_idle cipher h.state
  exact ⟨e', hdone, hqueue.trans h.queuedUp, hstate⟩

theorem Processing.doNextOp (hp : p.Encryption) (h : Processing p key nonce e)
    (hop : e.doNextOp profile = some (e', done)) : (done = none ∧ Processing p key nonce e') ∨
      (Free e' ∧ ∀ d ∈ done, d.tagIsValid = false) := by
  have hkept (hempty : e.queuedUp = none) : done = none ∧ Processing p key nonce e' := by
    rw [doNextOp_of_empty hempty] at hop
    cases hop
    exact ⟨rfl, h⟩
  obtain hqueued | ⟨cbuf, hauth⟩ | ⟨cbuf, hencrypt⟩ := h
  · exact hqueued.doNextOp hp hop
  · exact .inl (hkept hauth.queuedUp)
  · exact .inl (hkept hencrypt.queuedUp)

/-- A completion of the AES engine carries the request on or ends it. -/
theorem Processing.aesDone (hp : p.Encryption) (h : Processing p key nonce e)
    (hdone : e.aesDone cipher = some (e', done)) : (done = none ∧ Processing p key nonce e') ∨
      (Free e' ∧ ∃ tag, tag.length = p.micLen ∧
        done = some ⟨encryptedBuf cipher key nonce p tag, true, true⟩) := by
  obtain hqueued | ⟨cbuf, hauth⟩ | ⟨cbuf, hencrypt⟩ := h
  · obtain ⟨e1, hdone1, hnext⟩ := hqueued.aesDone
    rw [hdone1] at hdone
    cases hdone
    exact .inl ⟨rfl, .inl hnext⟩
  · obtain ⟨e1, cbuf1, hdone1, hnext⟩ := hauth.aesDone hp
    rw [hdone1] at hdone
    cases hdone
    exact .inl ⟨rfl, .inr (.inr ⟨cbuf1, hnext⟩)⟩
  obtain ⟨e1, tag, htag, hfree, hdone1⟩ := hencrypt.aesDone hp
  rw [hdone1] at hdone
  cases hdone
  exact .inr ⟨hfree, tag, htag, rfl⟩

theorem Free.setKey_setNonce_iff : Free ((e.setKey key).setNonce nonce) ↔ Free e :=
  ⟨fun h => ⟨h.queuedUp, h.state⟩, fun h => ⟨h.queuedUp, h.state⟩⟩

variable {result : Except (ErrorCode × List Byte) Unit}

theorem crypt_cases (h : e.crypt profile p = some (result, e')) :
    (¬ Free e ∧ result = .error (.busy, p.buf) ∧ e' = e) ∨
      (Free e ∧ result = .error (.inval, p.buf) ∧ e' = e) ∨
      (Free e ∧ result = .ok () ∧ e' = { e with queuedUp := some p }) := by
  unfold crypt at h
  split at h
  next hsome =>
    cases h
    exact .inl ⟨fun hfree => by simp [hfree.queuedUp] at hsome, rfl, rfl⟩
  next hnone =>
  split at h
  next hstate =>
    cases h
    exact .inl ⟨fun hfree => hstate hfree.state, rfl, rfl⟩
  next hidle =>
  have hfree : Free e := ⟨by simpa using hnone, by simpa using hidle⟩
  obtain ⟨_, -, h⟩ := bind_eq_some_iff.mp h
  split at h <;> cases h
  · exact .inr (.inl ⟨hfree, rfl, rfl⟩)
  · exact .inr (.inr ⟨hfree, rfl, rfl⟩)

theorem crypt_of_free (hfree : Free e) (hp : p.Encryption) :
    e.crypt profile p = some (.ok (), { e with queuedUp := some p }) := by
  unfold crypt
  rw [if_neg (by simp [hfree.queuedUp]), if_neg (by simp [hfree.state])]
  simp only [hp.inRange_eq]
  rfl

def Orderly (e : VirtualAES128CCM) : Prop := e.queuedUp ≠ none → e.state = .idle

theorem Free.orderly (h : Free e) : Orderly e := fun _ => h.state

theorem free_of_report {ok tagIsValid : Bool}
    (h : e.report ok tagIsValid = (e', done)) : Free e' := by
  cases h
  exact ⟨rfl, rfl⟩

theorem queuedUp_restoreMessage (e : VirtualAES128CCM) :
    e.restoreMessage.queuedUp = e.queuedUp := by
  unfold restoreMessage
  split <;> rfl

theorem queuedUp_saveTagBlock (e : VirtualAES128CCM) : e.saveTagBlock.queuedUp = e.queuedUp := by
  unfold saveTagBlock
  split <;> rfl

theorem queuedUp_takeMessage (e : VirtualAES128CCM) :
    e.swapTagBlock.takeMessage.queuedUp = e.queuedUp := by
  have hswap : e.swapTagBlock.queuedUp = e.queuedUp := by
    unfold swapTagBlock
    split <;> rfl
  unfold takeMessage
  split
  · exact hswap
  · exact hswap

theorem startCcmAuth_spec {result : Except ErrorCode Unit}
    (h : e.startCcmAuth = some (result, e')) : result = .ok () ∧ e'.queuedUp = e.queuedUp := by
  unfold startCcmAuth at h
  split at h
  · cases h
  split at h
  · cases h
  · cases h
    exact ⟨rfl, rfl⟩

theorem startCcmEncrypt_spec {result : Except ErrorCode Unit}
    (h : e.startCcmEncrypt = some (result, e')) :
    e'.queuedUp = e.queuedUp ∧ (result ≠ .ok () → e' = e) := by
  unfold startCcmEncrypt at h
  split at h
  · cases h
    exact ⟨rfl, fun _ => rfl⟩
  split at h
  · cases h
  · cases h
    exact ⟨rfl, fun hres => absurd rfl hres⟩

theorem endCcm_free (h : e.endCcm = some (e', done)) : Free e' := by
  unfold endCcm at h
  split at h
  · exact free_of_report (some.inj h)
  split at h
  · cases h
  dsimp only at h
  split at h <;> exact free_of_report (some.inj h)

theorem reverseEndCcm_free (h : e.reverseEndCcm = some (e', done)) : Free e' := by
  unfold reverseEndCcm at h
  split at h
  · exact free_of_report (some.inj h)
  split at h
  · cases h
  · exact free_of_report (some.inj h)

theorem cryptDone_cases (h : e.cryptDone cbuf = some (e', done)) :
    (done = none ∧ e'.queuedUp = e.queuedUp) ∨ Free e' := by
  unfold cryptDone at h
  dsimp only at h
  split at h
  · cases h
    exact .inl ⟨rfl, rfl⟩
  · split at h
    · obtain ⟨⟨result, e1⟩, hstart, h⟩ := map_eq_some_iff.mp h
      have hspec := (startCcmEncrypt_spec hstart).1
      cases result with
      | error error => exact .inr (free_of_report h)
      | ok =>
        cases h
        refine .inl ⟨rfl, hspec.trans ?_⟩
        split
        · exact queuedUp_restoreMessage _
        · rfl
    · exact .inr (reverseEndCcm_free h)
  · split at h
    · exact .inr (endCcm_free h)
    obtain ⟨⟨result, e1⟩, hstart, h⟩ := map_eq_some_iff.mp h
    obtain ⟨rfl, hspec⟩ := startCcmAuth_spec hstart
    cases h
    exact .inl ⟨rfl, hspec.trans (queuedUp_takeMessage _)⟩

theorem Orderly.aesDone (h : Orderly e) (hdone : e.aesDone cipher = some (e', done)) :
    Orderly e' ∧ (done ≠ none → Free e') := by
  by_cases hstate : e.state = .idle
  · obtain ⟨_, hdone1, hstate1, -⟩ := aesDone_of_idle cipher hstate
    rw [hdone1] at hdone
    cases hdone
    exact ⟨fun _ => hstate1, fun hnone => absurd rfl hnone⟩
  have hqueue : e.queuedUp = none := by
    by_contra hsome
    exact hstate (h hsome)
  unfold VirtualAES128CCM.aesDone at hdone
  split at hdone
  · cases hdone
    exact ⟨h, fun hnone => absurd rfl hnone⟩
  obtain ⟨rfl, hsame⟩ | hfree := cryptDone_cases hdone
  · exact ⟨fun hsome => absurd (hsame.trans hqueue) hsome, fun hnone => absurd rfl hnone⟩
  · exact ⟨hfree.orderly, fun _ => hfree⟩

theorem cryptR_spec
    (hqueue : e.queuedUp = none) (h : e.cryptR profile p = some (result, e')) : e'.queuedUp = none ∧
      (result ≠ .ok () → e.state = .idle → e'.state = .idle) := by
  unfold cryptR at h
  split at h
  · cases h
    exact ⟨hqueue, fun _ hstate => hstate⟩
  obtain ⟨_, -, h⟩ := bind_eq_some_iff.mp h
  split at h
  · cases h
    exact ⟨hqueue, fun _ hstate => hstate⟩
  obtain ⟨_, -, h⟩ := bind_eq_some_iff.mp h
  obtain ⟨_, -, h⟩ := bind_eq_some_iff.mp h
  change (match (e.directed p).prepareCcmBuffer e.nonce p.micLen
    (part p.buf p.aOff (p.mOff - p.aOff)) (part p.buf p.mOff p.mLen) with
    | (.error error, e) => _
    | (.ok (), e) => _) = _ at h
  obtain ⟨error, hprepare⟩ | ⟨_, _, _, -, hprepare⟩ :=
    prepareCcmBuffer_cases (e.directed p) e.nonce p.micLen
      (part p.buf p.aOff (p.mOff - p.aOff)) (part p.buf p.mOff p.mLen)
  · rw [hprepare] at h
    cases h
    exact ⟨hqueue, fun _ hstate => hstate⟩
  rw [hprepare] at h
  dsimp only at h
  split at h
  · obtain ⟨⟨started, e1⟩, hstart, h⟩ := bind_eq_some_iff.mp h
    obtain ⟨rfl, hsame⟩ := startCcmAuth_spec hstart
    cases h
    exact ⟨hsame.trans hqueue, fun hres => absurd rfl hres⟩
  obtain ⟨⟨started, e1⟩, hstart, h⟩ := bind_eq_some_iff.mp h
  obtain ⟨hsame, hfail⟩ := startCcmEncrypt_spec hstart
  have hempty := hsame.trans ((queuedUp_saveTagBlock _).trans hqueue)
  cases started with
  | error error =>
    cases h
    refine ⟨hempty, fun _ hstate => ?_⟩
    rw [hfail (by simp)]
    exact hstate
  | ok =>
    cases h
    exact ⟨hempty, fun hres => absurd rfl hres⟩

theorem Orderly.doNextOp (h : Orderly e) (hdone : e.doNextOp profile = some (e', done)) :
    Orderly e' ∧ (done ≠ none → Free e') := by
  cases hqueue : e.queuedUp with
  | none =>
    rw [doNextOp_of_empty hqueue] at hdone
    cases hdone
    exact ⟨h, fun hnone => absurd rfl hnone⟩
  | some p =>
    have hidle := h (by simp [hqueue])
    unfold VirtualAES128CCM.doNextOp at hdone
    rw [hqueue] at hdone
    split at hdone
    · cases hdone
      exact ⟨h, fun hnone => absurd rfl hnone⟩
    obtain ⟨⟨result, e1⟩, hres, hdone⟩ := map_eq_some_iff.mp hdone
    obtain ⟨hempty, hfail⟩ := cryptR_spec rfl hres
    cases result with
    | error error =>
      cases hdone
      have hfree : Free ({ e1.removeFromQueue with buf := none } :
          VirtualAES128CCM) := ⟨rfl, hfail (by simp) hidle⟩
      exact ⟨hfree.orderly, fun _ => hfree⟩
    | ok =>
      cases hdone
      exact ⟨fun hsome => absurd hempty hsome, fun hnone => absurd rfl hnone⟩

end VirtualAES128CCM

end TockKernel.Net

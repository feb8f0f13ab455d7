import TockKernel.Net.Ccm
import TockKernel.Net.Stream
import TockKernel.ProcessTypes

/-!
# The CCM engine

A model of `capsules/core/src/virtualizers/virtual_aes_ccm.rs` for one client of
the multiplexer, over hardware that chains blocks or applies a key stream to a
part of a buffer and reports when it is done. A panic is `none`; the lengths of
a request are added as the build adds them.
-/

namespace TockKernel.Net

open Arithmetic (Profile)
open Ccm (Block Cipher)

inductive CCMState where
  | idle
  | auth
  | encrypt
  deriving DecidableEq, Repr

structure CryptFunctionParameters where
  buf : List Byte
  aOff : ℕ
  mOff : ℕ
  mLen : ℕ
  micLen : ℕ
  confidential : Bool
  encrypting : Bool
  deriving DecidableEq

inductive AesMode where
  | cbc
  | ctr
  deriving DecidableEq, Repr

structure AesCall where
  mode : AesMode
  key : Block
  iv : Block
  buf : List Byte
  start : ℕ
  stop : ℕ

def AesCall.result (cipher : Cipher) (call : AesCall) : List Byte :=
  let bytes := (call.buf.drop call.start).take (call.stop - call.start)
  let n := (call.stop - call.start) / 16
  call.buf.take call.start ++ (match call.mode with
    | .cbc => Ccm.cbc cipher call.key n call.iv bytes
    | .ctr => Ccm.ctr cipher call.key n call.iv bytes) ++
    call.buf.drop call.stop

structure VirtualAES128CCM where
  cryptBuf : Option (List Byte)
  cryptAuthLen : ℕ
  cryptEncLen : ℕ
  state : CCMState
  confidential : Bool
  encrypting : Bool
  buf : Option (List Byte)
  /-- Offset of the authenticated data, offset and length of the message, length
  of the tag. -/
  pos : ℕ × ℕ × ℕ × ℕ
  key : Block
  nonce : List Byte
  savedTag : List Byte
  queuedUp : Option CryptFunctionParameters
  /-- Whether the multiplexer works for this client. -/
  inflight : Bool
  aes : Option AesCall

structure CryptDone where
  buf : List Byte
  ok : Bool
  tagIsValid : Bool

def CryptFunctionParameters.mEnd (profile : Profile) (p : CryptFunctionParameters) : Option ℕ :=
  (Arithmetic.add 32 profile p.mOff p.mLen).toOption

/-- `a_off <= m_off && m_off + m_len + mic_len <= buf.len()`. -/
def CryptFunctionParameters.inRange (profile : Profile)
    (p : CryptFunctionParameters) : Option Bool :=
  if p.aOff ≤ p.mOff then do
    let mEnd ← p.mEnd profile
    let tagEnd ← (Arithmetic.add 32 profile mEnd p.micLen).toOption
    return decide (tagEnd ≤ p.buf.length)
  else
    some false

def encodeALen (aData : List Byte) : Encoder Unit :=
  if aData.length = 0 then
    encodeBytes []
  else if aData.length < 0xff00 then
    encodeU16 (BitVec.ofNat 16 aData.length)
  else
    fun _ => .error

/-- The output is `auth_len` and `enc_len`. -/
def encodeCcmBuffer (nonce : List Byte) (micLen : ℕ) (aData mData : List Byte) :
    Encoder (ℕ × ℕ) := fun room =>
  if room < 16 then
    .needed 16
  else
    encTry room 14 (encodeU16 (BitVec.ofNat 16 mData.length)) fun off mLenBytes _ =>
    encTry room off (encodeALen aData) fun off aLenBytes _ =>
    encTry room off (encodeBytes aData) fun off aBytes _ =>
    let authLen := (off + 16 - 1) / 16 * 16
    if room < authLen then
      .needed authLen
    else
      let authZeroes := List.replicate (authLen - off) 0
      encTry room authLen (encodeBytes mData) fun off mBytes _ =>
      let encLen := (off + 16 - 1) / 16 * 16
      if room < encLen then
        .needed encLen
      else
        .done encLen (Ccm.flags micLen aData :: (nonce ++ mLenBytes ++ aLenBytes ++ aBytes) ++
            authZeroes ++ mBytes ++ List.replicate (encLen - off) 0, (authLen, encLen))

namespace VirtualAES128CCM

variable (e : VirtualAES128CCM)

def prepareCcmBuffer (nonce : List Byte) (micLen : ℕ)
    (aData mData : List Byte) : Except ErrorCode Unit × VirtualAES128CCM :=
  match e.cryptBuf with
  | none => (.error .nomem, e)
  | some cbuf =>
    match encodeCcmBuffer nonce micLen aData mData cbuf.length with
    | .done _ (bytes, (authLen, encLen)) =>
      (.ok (), { e with
        cryptBuf := some (copyAt cbuf 0 bytes)
        cryptAuthLen := authLen
        cryptEncLen := encLen })
    | .needed _ => (.error .nomem, e)
    | _ => (.error .fail, e)

def reversed : Bool :=
  e.confidential && !e.encrypting

def startCcmAuth : Option (Except ErrorCode Unit × VirtualAES128CCM) :=
  if e.state ≠ .idle ∧ ¬ (e.state = .encrypt ∧ e.reversed = true) then
    none
  else
    match e.cryptBuf with
    | none => none
    | some cryptBuf =>
      let authEnd := if e.confidential then e.cryptEncLen else e.cryptAuthLen
      some (.ok (), { e with
        cryptBuf := none
        aes := some ⟨.cbc, e.key, 0, cryptBuf, 0, authEnd⟩
        state := .auth })

def startCcmEncrypt : Option (Except ErrorCode Unit × VirtualAES128CCM) :=
  if e.state ≠ .auth ∧ ¬ (e.state = .idle ∧ e.reversed = true) then
    some (.error .fail, e)
  else
    match e.cryptBuf with
    | none => none
    | some cryptBuf =>
      some (.ok (), { e with
        cryptBuf := none
        aes := some ⟨.ctr, e.key, Ccm.counter e.nonce, cryptBuf, e.cryptAuthLen - 16, e.cryptEncLen⟩
        state := .encrypt })

def removeFromQueue : VirtualAES128CCM :=
  { e with queuedUp := none, inflight := false }

def report (ok tagIsValid : Bool) : VirtualAES128CCM × Option CryptDone :=
  ({ e.removeFromQueue with state := .idle, buf := none },
    e.buf.map fun buf => ⟨buf, ok, tagIsValid⟩)

/-- The message is copied back. An encryption writes the tag; a decryption
compares it with the one that was received. -/
def endCcm : Option (VirtualAES128CCM × Option CryptDone) :=
  match e.buf with
  | none => some (e.report true false)
  | some buf =>
    match e.cryptBuf with
    | none => none
    | some cbuf =>
      let (_, mOff, mLen, micLen) := e.pos
      let buf := copyAt buf mOff (part cbuf e.cryptAuthLen mLen)
      let mEnd := mOff + mLen
      let tag := part cbuf (e.cryptAuthLen - 16) micLen
      if e.encrypting then
        some ({ e with buf := some (copyAt buf mEnd tag) }.report true true)
      else
        some ({ e with buf := some buf }.report true (decide (part buf mEnd micLen = tag)))

def xorBytes (a b : List Byte) : List Byte := List.zipWith (· ^^^ ·) a b

def reverseEndCcm : Option (VirtualAES128CCM × Option CryptDone) :=
  match e.buf with
  | none => some (e.report true false)
  | some buf =>
    match e.cryptBuf with
    | none => none
    | some cbuf =>
      let (_, mOff, mLen, micLen) := e.pos
      let tagOff := e.cryptEncLen - 16
      let tag := xorBytes (e.savedTag.take micLen) (part cbuf tagOff micLen)
      some ({ e with cryptBuf := some (copyAt cbuf tagOff tag) }.report true
        (decide (part buf (mOff + mLen) micLen = tag)))

def saveTagBlock : VirtualAES128CCM :=
  match e.cryptBuf with
  | none => e
  | some cbuf =>
    { e with
      savedTag := part cbuf (e.cryptAuthLen - 16) 16
      cryptBuf := some (copyAt cbuf (e.cryptAuthLen - 16) (List.replicate 16 0)) }

def swapTagBlock : VirtualAES128CCM :=
  match e.cryptBuf with
  | none => e
  | some cbuf =>
    { e with
      savedTag := part cbuf (e.cryptAuthLen - 16) 16
      cryptBuf := some (copyAt cbuf (e.cryptAuthLen - 16) e.savedTag) }

def cryptR (profile : Profile) (e : VirtualAES128CCM) (p : CryptFunctionParameters) :
    Option (Except (ErrorCode × List Byte) Unit × VirtualAES128CCM) := do
  if e.state ≠ .idle then
    return (.error (.busy, p.buf), e)
  else if (← p.inRange profile) = false then
    return (.error (.inval, p.buf), e)
  else
    let e := { e with confidential := p.confidential, encrypting := p.encrypting }
    let mEnd ← p.mEnd profile
    -- `&buf[a_off..m_off]` and `&buf[m_off..m_off + m_len]`
    guard (p.mOff ≤ mEnd ∧ mEnd ≤ p.buf.length)
    match e.prepareCcmBuffer e.nonce p.micLen (part p.buf p.aOff (p.mOff - p.aOff))
        (part p.buf p.mOff p.mLen) with
    | (.error error, e) => return (.error (error, p.buf), e)
    | (.ok (), e) =>
      let started ←
        if !p.confidential || p.encrypting then
          e.startCcmAuth
        else
          e.saveTagBlock.startCcmEncrypt
      match started with
      | (.error error, e) => return (.error (error, p.buf), e)
      | (.ok (), e) =>
        return (.ok (), { e with
          buf := some p.buf
          pos := (p.aOff, p.mOff, p.mLen, p.micLen) })

def setKey (key : Block) : VirtualAES128CCM :=
  { e with key := key }

def setNonce (nonce : List Byte) : VirtualAES128CCM :=
  { e with nonce := nonce }

def crypt (profile : Profile) (e : VirtualAES128CCM) (p : CryptFunctionParameters) :
    Option (Except (ErrorCode × List Byte) Unit × VirtualAES128CCM) := do
  if e.queuedUp.isSome then
    return (.error (.busy, p.buf), e)
  else if e.state ≠ .idle then
    return (.error (.busy, p.buf), e)
  else if (← p.inRange profile) = false then
    return (.error (.inval, p.buf), e)
  else
    return (.ok (), { e with queuedUp := some p })

/-- `do_next_op`, from the deferred call. When the operation cannot be started
there is no buffer to hand back, and the client hears nothing. -/
def doNextOp (profile : Profile) (e : VirtualAES128CCM) :
    Option (VirtualAES128CCM × Option CryptDone) :=
  if e.inflight then
    some (e, none)
  else
    match e.queuedUp with
    | none => some (e, none)
    | some p =>
      let e := { e with inflight := true, queuedUp := none }
      (e.cryptR profile p).map fun
        | (.ok (), e) => (e, none)
        | (.error _, e) =>
          ({ e.removeFromQueue with buf := none }, e.buf.map fun buf => ⟨buf, false, false⟩)

/-- After the authentication of a message that is to be encrypted, the tag is
copied to where the key stream begins, and the message is put back. -/
def restoreMessage : VirtualAES128CCM :=
  match e.cryptBuf, e.buf with
  | some cbuf, some buf =>
    let (_, mOff, mLen, _) := e.pos
    let tag := part cbuf (e.cryptEncLen - 16) 16
    let cbuf := copyAt cbuf (e.cryptAuthLen - 16) tag
    let cbuf := copyAt cbuf e.cryptAuthLen (part buf mOff mLen)
    { e with cryptBuf := some (copyAt cbuf (e.cryptAuthLen + mLen)
        (List.replicate (e.cryptEncLen - (e.cryptAuthLen + mLen)) 0)) }
  | _, _ => e

/-- After the key stream of a decryption, the message is copied back and its
padding is cleared. -/
def takeMessage : VirtualAES128CCM :=
  match e.cryptBuf with
  | none => e
  | some cbuf =>
    let (_, mOff, mLen, _) := e.pos
    { e with
      buf := e.buf.map fun buf =>
        copyAt buf mOff (part cbuf e.cryptAuthLen mLen)
      cryptBuf := some (copyAt cbuf (e.cryptAuthLen + mLen)
        (List.replicate (e.cryptEncLen - (e.cryptAuthLen + mLen)) 0)) }

def returned (cryptBuf : List Byte) : VirtualAES128CCM :=
  { e with cryptBuf := some cryptBuf, aes := none }

def cryptDone (cryptBuf : List Byte) : Option (VirtualAES128CCM × Option CryptDone) :=
  let e := e.returned cryptBuf
  match e.state with
  | .idle => some (e, none)
  | .auth =>
    if !e.reversed then
      let e := if e.confidential then e.restoreMessage else e
      e.startCcmEncrypt.map fun
        | (.ok (), e) => (e, none)
        | (.error _, e) => e.report false false
    else
      e.reverseEndCcm
  | .encrypt =>
    if !e.reversed then
      e.endCcm
    else
      e.swapTagBlock.takeMessage.startCcmAuth.map fun
        | (.ok (), e) => (e, none)
        | (.error _, e) => e.report false false

def aesDone (cipher : Cipher) (e : VirtualAES128CCM) :
    Option (VirtualAES128CCM × Option CryptDone) :=
  match e.aes with
  | none => some (e, none)
  | some call => e.cryptDone (call.result cipher)

end VirtualAES128CCM

end TockKernel.Net

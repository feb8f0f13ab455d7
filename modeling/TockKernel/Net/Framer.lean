import TockKernel.Net.Ieee802154
import TockKernel.Net.VirtualAesCcm

/-!
# The framer

A model of `capsules/extra/src/ieee802154/framer.rs`: the pipelines for
transmission and reception, which share one CCM engine. A panic is `none`. The
frames that the receive client gets are kept in a log, each with the frame that
the radio had received.
-/

namespace TockKernel.Net

open Arithmetic (Profile)
open Ccm (Block Cipher)

def psduOffset : ℕ := 2

def lqiSize : ℕ := 1

def maxFrameSize : ℕ := 127

structure FrameInfo where
  frameType : FrameType
  macPayloadOffset : ℕ
  dataOffset : ℕ
  dataLen : ℕ
  micLen : ℕ
  securityParams : Option (SecurityLevel × Block × List Byte)
  deriving DecidableEq

namespace FrameInfo

def unsecuredLength (profile : Profile) (info : FrameInfo) : Option ℕ :=
  (Arithmetic.add 32 profile info.dataOffset info.dataLen).toOption

def encryptionNeeded (info : FrameInfo) : Bool :=
  match info.securityParams with
  | some (level, _, _) => level.encryptionNeeded
  | none => false

def ccmEncryptRanges (profile : Profile) (info : FrameInfo) : Option (ℕ × ℕ) := do
  guard (info.frameType ≠ .beacon ∧ info.frameType ≠ .macCommand)
  let unsecured ← info.unsecuredLength profile
  if !info.encryptionNeeded then
    return (unsecured, 0)
  else
    let mLen ← (Arithmetic.sub 32 profile unsecured info.macPayloadOffset).toOption
    return (info.macPayloadOffset, mLen)

end FrameInfo

def getCcmNonce (deviceAddr : Vector Byte 8) (frameCounter : BitVec 32)
    (level : SecurityLevel) : List Byte :=
  deviceAddr.toList ++ [frameCounter.extractLsb' 24 8,
    frameCounter.extractLsb' 16 8, frameCounter.extractLsb' 8 8,
    frameCounter.extractLsb' 0 8, level.toU8]

abbrev KeyProcedure := SecurityLevel → KeyId → Option Block

inductive TxState where
  | idle
  | readyToEncrypt (info : FrameInfo) (buf : List Byte)
  | encrypting (info : FrameInfo)
  | readyToTransmit (info : FrameInfo) (buf : List Byte)

inductive RxState where
  | idle
  | readyToDecrypt (info : FrameInfo) (buf : List Byte) (lqi : Byte)
  | decrypting (info : FrameInfo) (lqi : Byte)
  | readyToYield (info : FrameInfo) (buf : List Byte) (lqi : Byte)

def TxState.waiting : TxState → Bool
  | .readyToEncrypt _ _ => true
  | _ => false

def RxState.waiting : RxState → Bool
  | .readyToDecrypt _ _ _ => true
  | _ => false

/-- What the radio hands over: its buffer, and the length of the frame in it. -/
structure Reception where
  buf : List Byte
  frameLen : ℕ
  lqi : Byte
  crcValid : Bool

structure Delivery where
  frame : List Byte
  header : Header
  lqi : Byte
  dataOffset : ℕ
  dataLen : ℕ

def Delivery.payload (d : Delivery) : List Byte := part d.frame d.dataOffset d.dataLen

structure Framer where
  aesCcm : VirtualAES128CCM
  txState : TxState
  rxState : RxState
  cryptBuf : Option (List Byte)
  /-- The frame that was received last when the pipeline was free. -/
  received : Reception
  delivered : List (Reception × Delivery)

inductive MacAnswer where
  | ok
  | busy
  | refused (error : ErrorCode)
  deriving DecidableEq

def decodeDone (buf : List Byte) (unsecured : Bool) : Option (Option (ℕ × Header × ℕ)) :=
  match Header.decode buf unsecured with
  | .done off (header, macPayloadOffset) => some (some (off, header, macPayloadOffset))
  | .panicked => none
  | _ => some none

/-- `&buf[radio::PSDU_OFFSET..(buf.len() - LQI_SIZE)]`. -/
def frameBuffer (buf : List Byte) : Option (List Byte) :=
  if psduOffset + lqiSize ≤ buf.length then
    some (part buf psduOffset (buf.length - lqiSize - psduOffset))
  else
    none

def extendedAddr : Option MacAddress → Option (Vector Byte 8)
  | some (.long addr) => some addr
  | _ => none

def incomingFrameInfo (keys : KeyProcedure) (header : Header)
    (macPayloadOffset dataOffset dataLen micLen : ℕ) (security : Security) : Option FrameInfo := do
  guard (header.version ≠ .v2003)
  let key ← keys security.level security.keyId
  let deviceAddr ← extendedAddr header.srcAddr
  let frameCounter ← security.frameCounter
  guard (frameCounter ≠ 0xffffffff)
  return {
    frameType := header.frameType
    macPayloadOffset := macPayloadOffset
    dataOffset := dataOffset
    dataLen := dataLen
    micLen := micLen
    securityParams :=
      some (security.level, key, getCcmNonce deviceAddr frameCounter security.level) }

namespace Framer

section Pipelines

variable (profile : Profile) (keys : KeyProcedure) (s : Framer)

def incomingFrameSecurity (buf : List Byte) (frameLen : ℕ)
    (lqi : Byte) : Option (RxState × Framer) := do
  let frame ← frameBuffer buf
  match ← decodeDone frame false with
  | none => return (.idle, s)
  | some (dataOffset, header, macPayloadOffset) =>
    let micLen := match header.security with
      | some security => security.level.micLen
      | none => 0
    let rest ← (Arithmetic.sub 32 profile frameLen dataOffset).toOption
    let dataLen ← (Arithmetic.sub 32 profile rest micLen).toOption
    match header.security with
    | some security =>
      match incomingFrameInfo keys header macPayloadOffset dataOffset dataLen micLen security with
      | none => return (.idle, s)
      | some info => return (.readyToDecrypt info buf lqi, s)
    | none =>
      let delivery : Delivery := ⟨frame, header, lqi, dataOffset, dataLen⟩
      return (.idle, { s with delivered := s.delivered ++ [(s.received, delivery)] })

def crypt (s : Framer) (info : FrameInfo) (key : Block) (nonce buf : List Byte) :
    Option (Except (ErrorCode × List Byte) Unit × Framer) := do
  let (mOff, mLen) ← info.ccmEncryptRanges profile
  let (result, aesCcm) ← ((s.aesCcm.setKey key).setNonce nonce).crypt profile
    { buf := buf
      aOff := psduOffset
      mOff := psduOffset + mOff
      mLen := mLen
      micLen := info.micLen
      confidential := info.encryptionNeeded
      encrypting := true }
  return (result, { s with aesCcm := aesCcm })

variable (info : FrameInfo)

/-- The frame is copied to a buffer of the framer, and the radio gets its own
buffer back. A busy engine leaves the framer without that buffer. -/
def beginDecrypt (key : Block) (nonce buf : List Byte) (lqi : Byte) : Option Framer := do
  match s.cryptBuf with
  | none =>
    let _ ← info.ccmEncryptRanges profile
    return { s with
      aesCcm := (s.aesCcm.setKey key).setNonce nonce
      rxState := .idle }
  | some cryptBuf =>
    guard (buf.length ≤ cryptBuf.length)
    match ← ({ s with cryptBuf := none } : Framer).crypt profile info key nonce
        (copyAt cryptBuf 0 buf) with
    | (.ok (), s) => return { s with rxState := .decrypting info lqi }
    | (.error (.busy, buf), s) =>
      return { s with rxState := .readyToDecrypt info buf lqi }
    | (.error (_, buf), s) =>
      return { s with cryptBuf := some buf, rxState := .idle }

def yieldFrame (buf : List Byte) (lqi : Byte) : Option Framer := do
  let frameLen ← info.unsecuredLength profile
  guard (psduOffset + maxFrameSize ≤ buf.length)
  match ← decodeDone (part buf psduOffset maxFrameSize) true with
  | none => return { s with rxState := .idle }
  | some (dataOffset, header, _) =>
    let frame ← frameBuffer buf
    let dataLen ← (Arithmetic.sub 32 profile frameLen dataOffset).toOption
    let delivery : Delivery := ⟨frame, header, lqi, dataOffset, dataLen⟩
    return { s with
      rxState := .idle
      cryptBuf := some buf
      delivered := s.delivered ++ [(s.received, delivery)] }

def stepReceiveState : Option Framer :=
  match s.rxState with
  | .idle => some s
  | .readyToDecrypt info buf lqi =>
    match info.securityParams with
    | none => some { s with rxState := .idle }
    | some (_, key, nonce) => s.beginDecrypt profile info key nonce buf lqi
  | .decrypting _ _ => some s
  | .readyToYield info buf lqi => s.yieldFrame profile info buf lqi

def receive (r : Reception) : Option Framer := do
  if !r.crcValid then
    return s
  else
    match s.rxState with
    | .idle =>
      let (rxState, s) ← ({ s with received := r } : Framer).incomingFrameSecurity
        profile keys r.buf r.frameLen r.lqi
      ({ s with rxState := rxState } : Framer).stepReceiveState profile
    | _ => s.stepReceiveState profile

def outgoingFrameSecurity (buf : List Byte) (info : FrameInfo) : TxState :=
  match info.securityParams with
  | some (level, _, _) =>
    if level = .none then .readyToTransmit info buf else .readyToEncrypt info buf
  | none => .readyToTransmit info buf

def stepTransmitState (mac : MacAnswer) : Option Framer :=
  match s.txState with
  | .idle => some s
  | .readyToEncrypt info buf =>
    match info.securityParams with
    | none => some { s with txState := .idle }
    | some (_, key, nonce) => do
        match ← s.crypt profile info key nonce buf with
        | (.ok (), s) => return { s with txState := .encrypting info }
        | (.error (.busy, buf), s) =>
          return { s with txState := .readyToEncrypt info buf }
        | (.error _, s) => return { s with txState := .idle }
  | .encrypting _ => some s
  | .readyToTransmit info buf =>
    match mac with
    | .busy => some { s with txState := .readyToTransmit info buf }
    | _ => some { s with txState := .idle }

/-- `MacDevice::transmit`, of a frame with any header and security. -/
def transmit (buf : List Byte) (mac : MacAnswer) : Option Framer :=
  match s.txState with
  | .idle =>
    ({ s with txState := outgoingFrameSecurity buf info } : Framer).stepTransmitState profile mac
  | _ => some s

def endDecrypt (lqi : Byte) (done : CryptDone) : Option Framer :=
  if done.tagIsValid then
    ({ s with rxState := .readyToYield info done.buf lqi } : Framer).stepReceiveState profile
  else
    some { s with cryptBuf := some done.buf, rxState := .idle }

/-- `CCMClient::crypt_done`. What the engine did was for the transmission, if one
is waiting for it. -/
def cryptDone (done : CryptDone) (mac : MacAnswer) : Option Framer :=
  match s.txState with
  | .encrypting info =>
    if done.ok then
      ({ s with txState := .readyToTransmit info done.buf } : Framer).stepTransmitState profile mac
    else
      some { s with txState := .idle }
  | txState =>
    match s.rxState with
    | .decrypting info lqi => do
        let s ← s.endDecrypt profile info lqi done
        if txState.waiting then s.stepTransmitState profile mac else return s
    | rxState =>
      if txState.waiting then
        s.stepTransmitState profile mac
      else if rxState.waiting then
        s.stepReceiveState profile
      else
        some s

def afterEngine (mac : MacAnswer) : VirtualAES128CCM × Option CryptDone → Option Framer
  | (aesCcm, none) => some { s with aesCcm := aesCcm }
  | (aesCcm, some done) =>
    ({ s with aesCcm := aesCcm } : Framer).cryptDone profile done mac

end Pipelines

inductive Event where
  | receive (r : Reception)
  | transmit (info : FrameInfo) (buf : List Byte) (mac : MacAnswer)
  | configDone (mac : MacAnswer)
  /-- The deferred call of the engine. -/
  | deferredCall (mac : MacAnswer)
  /-- The hardware has finished. -/
  | aesDone (mac : MacAnswer)

section Runs

variable (profile : Profile) (cipher : Cipher) (keys : KeyProcedure)

def step (s : Framer) : Event → Option Framer
  | .receive r => s.receive profile keys r
  | .transmit info buf mac => s.transmit profile info buf mac
  | .configDone mac => s.stepTransmitState profile mac
  | .deferredCall mac => do s.afterEngine profile mac (← s.aesCcm.doNextOp profile)
  | .aesDone mac => do s.afterEngine profile mac (← s.aesCcm.aesDone cipher)

def run : List Event → Framer → Option Framer
  | [], s => some s
  | event :: events, s => (s.step profile cipher keys event).bind (run events)

end Runs

end Framer

end TockKernel.Net

import TockKernel.Net.FramerReception
import TockKernel.Net.Ieee802154RoundTrip

/-!
# Runs of the framer

In a run in which every frame that passes the checks is complete and authentic,
and no secured transmission begins while a reception is in progress, the client
gets only authentic frames, and gets them exactly. A complete frame that is not
authentic is delivered like any other.
-/

namespace TockKernel.Net

open Ccm (Block Cipher)
open VirtualAES128CCM Reception
open Option (bind_eq_some_iff)
open Arithmetic

def TxState.Encrypting : TxState → Prop
  | .encrypting _ => True
  | _ => False

def RxState.Decrypting : RxState → Prop
  | .decrypting _ _ => True
  | _ => False

namespace Framer

open VirtualAES128CCM (Free Orderly Processing)

variable {profile : Profile} {cipher : Cipher} {keys : KeyProcedure} {s s' : Framer}
  {info : FrameInfo} {level : SecurityLevel} {key : Block} {nonce : List Byte}
  {mac : MacAnswer}

/-! ## The invariant -/

structure InEngine (cipher : Cipher) (keys : KeyProcedure) (r : Reception)
    (info : FrameInfo) (e : VirtualAES128CCM) : Prop where
  frameInfo : r.frameInfo keys = some info
  complete : r.Complete cipher info
  authentic : info.Authentic cipher r.frame
  engine : Free e ∨ ∃ cryptBuf level key nonce,
    info.Passed r level key nonce ∧ r.buf.length ≤ cryptBuf.length ∧
      Processing (info.request (copyAt cryptBuf 0 r.buf)) key nonce e

def Receiving (cipher : Cipher) (keys : KeyProcedure) (s : Framer) : Prop :=
  match s.rxState with
  | .idle => True
  | .readyToDecrypt _ _ _ => s.cryptBuf = none
  | .decrypting info _ => info.micLen = s.received.micLen ∧
      (info.micLen ≠ 0 → InEngine cipher keys s.received info s.aesCcm)
  | .readyToYield _ _ _ => False

structure Invariant (cipher : Cipher) (keys : KeyProcedure) (s : Framer) : Prop where
  orderly : Orderly s.aesCcm
  busy : Free s.aesCcm ∨ s.txState.Encrypting ∨ s.rxState.Decrypting
  waiting : ∀ info buf, s.txState ≠ .readyToEncrypt info buf
  receiving : s.Receiving cipher keys
  delivered : ∀ entry ∈ s.delivered, Proper cipher keys entry.1 entry.2

/-- The frames that the radio hands over are complete and authentic if they pass
the checks, and a secured transmission begins only when no frame is being
received. -/
def Sound (cipher : Cipher) (keys : KeyProcedure) (s : Framer) : Event → Prop
  | .receive r => ∀ info, r.frameInfo keys = some info → info.micLen ≠ 0 →
      r.Complete cipher info ∧ info.Authentic cipher r.frame
  | .transmit info _ _ =>
    (∃ level key nonce, info.securityParams = some (level, key, nonce) ∧
      level ≠ .none) → s.rxState = .idle
  | _ => True

/-! ## Transmission -/

theorem Invariant.setTx (h : Invariant cipher keys s) {txState : TxState}
    (hbusy : Free s.aesCcm ∨ txState.Encrypting ∨ s.rxState.Decrypting)
    (hwaiting : ∀ info buf, txState ≠ .readyToEncrypt info buf) :
    Invariant cipher keys { s with txState := txState } :=
  ⟨h.orderly, hbusy, hwaiting, h.receiving, h.delivered⟩

theorem Invariant.stepTransmitState (h : Invariant cipher keys s)
    (hstep : s.stepTransmitState profile mac = some s') : Invariant cipher keys s' := by
  unfold Framer.stepTransmitState at hstep
  split at hstep
  · cases hstep
    exact h
  next info buf htx => exact absurd htx (h.waiting info buf)
  · cases hstep
    exact h
  next info buf htx =>
  have hbusy : Free s.aesCcm ∨ s.rxState.Decrypting := by
    have := h.busy
    rw [htx] at this
    exact this.imp_right fun h => h.resolve_left id
  split at hstep
  all_goals
    cases hstep
    exact h.setTx (hbusy.imp_right .inr) (by simp)

theorem outgoingFrameSecurity_cases (buf : List Byte) (info : FrameInfo) :
    outgoingFrameSecurity buf info = .readyToTransmit info buf ∨
      (outgoingFrameSecurity buf info = .readyToEncrypt info buf ∧
        ∃ level key nonce, info.securityParams = some (level, key, nonce) ∧ level ≠ .none) := by
  unfold outgoingFrameSecurity
  split
  next level key nonce hparams =>
    split
    · exact .inl rfl
    next hlevel => exact .inr ⟨rfl, level, key, nonce, hparams, hlevel⟩
  · exact .inl rfl

variable {buf : List Byte} {r : Reception} {lqi : Byte} {cryptBuf : List Byte}
  {e : VirtualAES128CCM} {done : Option CryptDone}

theorem crypt_cases {result : Except (ErrorCode × List Byte) Unit}
    (h : s.crypt profile info key nonce buf = some (result, s')) :
    ∃ mOff mLen, info.ccmEncryptRanges profile = some (mOff, mLen) ∧
      ((¬ Free s.aesCcm ∧ result = .error (.busy, buf) ∧
          s' = { s with aesCcm := (s.aesCcm.setKey key).setNonce nonce }) ∨
        (Free s.aesCcm ∧ result = .error (.inval, buf) ∧
          s' = { s with aesCcm := (s.aesCcm.setKey key).setNonce nonce }) ∨
        (Free s.aesCcm ∧ result = .ok () ∧
          s' = { s with aesCcm := { (s.aesCcm.setKey key).setNonce nonce with
            queuedUp := some ⟨buf, psduOffset, psduOffset + mOff, mLen,
              info.micLen, info.encryptionNeeded, true⟩ } })) := by
  obtain ⟨⟨mOff, mLen⟩, hranges, h⟩ := bind_eq_some_iff.mp h
  obtain ⟨⟨_, _⟩, hcrypt, h⟩ := bind_eq_some_iff.mp h
  cases h
  refine ⟨mOff, mLen, hranges, ?_⟩
  have hfree : Free ((s.aesCcm.setKey key).setNonce nonce) ↔ Free s.aesCcm :=
    Free.setKey_setNonce_iff
  obtain ⟨hbusy, rfl, rfl⟩ | ⟨hidle, rfl, rfl⟩ | ⟨hidle, rfl, rfl⟩ := crypt_cases hcrypt
  · exact .inl ⟨fun h => hbusy (hfree.mpr h), rfl, rfl⟩
  · exact .inr (.inl ⟨hfree.mp hidle, rfl, rfl⟩)
  · exact .inr (.inr ⟨hfree.mp hidle, rfl, rfl⟩)

theorem Invariant.transmit (h : Invariant cipher keys s)
    (hsound : Sound cipher keys s (.transmit info buf mac))
    (hstep : s.transmit profile info buf mac = some s') : Invariant cipher keys s' := by
  unfold Framer.transmit at hstep
  split at hstep
  swap
  · cases hstep
    exact h
  next htx =>
  have hbusy : Free s.aesCcm ∨ s.rxState.Decrypting := by
    have := h.busy
    rw [htx] at this
    exact this.imp_right fun h => h.resolve_left id
  obtain hready | ⟨hready, hsecured⟩ := outgoingFrameSecurity_cases buf info
  · rw [hready] at hstep
    exact (h.setTx (hbusy.imp_right .inr) (by simp)).stepTransmitState hstep
  have hidle := hsound hsecured
  have hfree : Free s.aesCcm := by
    obtain hfree | hdecrypting := hbusy
    · exact hfree
    · rw [hidle] at hdecrypting
      exact hdecrypting.elim
  obtain ⟨_, _, _, hparams, -⟩ := hsecured
  rw [hready] at hstep
  unfold Framer.stepTransmitState at hstep
  dsimp only at hstep
  rw [hparams] at hstep
  obtain ⟨⟨_, _⟩, hcrypt, hstep⟩ := bind_eq_some_iff.mp hstep
  have hrecv (e : VirtualAES128CCM) (t : TxState) :
      Receiving cipher keys { s with aesCcm := e, txState := t } := by
    rw [hidle]
    trivial
  obtain ⟨_, _, -, ⟨hnot, -⟩ | ⟨-, rfl, rfl⟩ | ⟨-, rfl, rfl⟩⟩ := crypt_cases hcrypt
  · exact absurd hfree hnot
  · cases hstep
    exact ⟨fun _ => hfree.state, .inl ⟨hfree.queuedUp, hfree.state⟩, by simp,
      hrecv _ _, h.delivered⟩
  · cases hstep
    exact ⟨fun _ => hfree.state, .inr (.inl trivial), by simp, hrecv _ _, h.delivered⟩

/-! ## The beginning of a reception -/

theorem incomingFrameSecurity_cases {rxState : RxState}
    (h : s.incomingFrameSecurity profile keys r.buf r.frameLen r.lqi = some (rxState, s')) :
    (rxState = .idle ∧ s' = s) ∨ (∃ d, r.micLen = 0 ∧ rxState = .idle ∧
        s' = { s with delivered := s.delivered ++ [(s.received, d)] }) ∨
      ∃ info dataLen, rxState = .readyToDecrypt { info with dataLen := dataLen }
          r.buf r.lqi ∧ s' = s ∧ r.frameInfo keys = some info ∧
        (info.dataOffset + info.micLen ≤ r.frameLen → dataLen = info.dataLen) := by
  obtain ⟨_, hframe, h⟩ := bind_eq_some_iff.mp h
  obtain ⟨_, hdecoded, h⟩ := bind_eq_some_iff.mp h
  split at h
  · cases h
    exact .inl ⟨rfl, rfl⟩
  next dataOffset header macPayloadOffset =>
  have hheader : r.header = some (dataOffset, header, macPayloadOffset) := by
    unfold decodeDone at hdecoded
    split at hdecoded <;> cases hdecoded
    next hdecode =>
      rw [Reception.header, hframe, Option.bind_some, hdecode]
  obtain ⟨_, hrest, h⟩ := bind_eq_some_iff.mp h
  obtain ⟨dataLen, hdataLen, h⟩ := bind_eq_some_iff.mp h
  split at h
  next security hsecurity =>
    rw [hsecurity] at hdataLen
    dsimp only at hdataLen
    split at h
    · cases h
      exact .inl ⟨rfl, rfl⟩
    next info hinfo =>
    cases h
    have hspec := incomingFrameInfo_dataLen hinfo (r.frameLen - dataOffset - security.level.micLen)
    obtain ⟨key, nonce, rfl⟩ := incomingFrameInfo_eq_some hinfo
    refine .inr (.inr ⟨⟨header.frameType, macPayloadOffset, dataOffset,
      r.frameLen - dataOffset - security.level.micLen, security.level.micLen,
      some (security.level, key, nonce)⟩, dataLen, rfl, rfl, ?_, ?_⟩)
    · rw [Reception.frameInfo, hheader, Option.bind_some]
      dsimp only
      rw [hsecurity]
      exact hspec
    · intro hholds
      dsimp only at hholds ⊢
      rw [sub_of_le profile (by omega)] at hrest
      cases hrest
      rw [sub_of_le profile (by omega)] at hdataLen
      cases hdataLen
      rfl
  next hsecurity =>
    cases h
    refine .inr (.inl ⟨_, ?_, rfl, rfl⟩)
    rw [Reception.micLen, hheader]
    dsimp only
    rw [Reception.micLenOf, hsecurity]

theorem free_or_encrypting (h : Invariant cipher keys s) (hidle : ¬ s.rxState.Decrypting) :
    Free s.aesCcm ∨ s.txState.Encrypting :=
  h.busy.imp_right fun h => h.resolve_right hidle

theorem Invariant.beginDecrypt (h : Invariant cipher keys { s with rxState := .idle })
    (hlen : info.micLen = s.received.micLen)
    (hengine : info.micLen ≠ 0 → ∀ cryptBuf mOff mLen e, buf.length ≤ cryptBuf.length →
      info.ccmEncryptRanges profile = some (mOff, mLen) → Free e →
      InEngine cipher keys s.received info { (e.setKey key).setNonce nonce with
        queuedUp := some ⟨copyAt cryptBuf 0 buf, psduOffset, psduOffset + mOff, mLen,
          info.micLen, info.encryptionNeeded, true⟩ })
    (hstep : s.beginDecrypt profile info key nonce buf lqi = some s') :
    Invariant cipher keys s' := by
  have hbusy := free_or_encrypting h id
  unfold Framer.beginDecrypt at hstep
  split at hstep
  · obtain ⟨_, -, hstep⟩ := bind_eq_some_iff.mp hstep
    cases hstep
    exact ⟨h.orderly, hbusy.imp Free.setKey_setNonce_iff.mpr .inl, h.waiting, trivial, h.delivered⟩
  next cryptBuf hcryptBuf =>
  obtain ⟨_, hguard, hstep⟩ := bind_eq_some_iff.mp hstep
  obtain ⟨⟨_, _⟩, hcrypt, hstep⟩ := bind_eq_some_iff.mp hstep
  have hfits : buf.length ≤ cryptBuf.length := by
    by_contra hlong
    rw [guard, if_neg hlong] at hguard
    cases hguard
  obtain ⟨mOff, mLen, hranges, ⟨hnot, rfl, rfl⟩ | ⟨hfree, rfl, rfl⟩ |
    ⟨hfree, rfl, rfl⟩⟩ := crypt_cases hcrypt
  · cases hstep
    exact ⟨h.orderly, .inr (.inl (hbusy.resolve_left hnot)), h.waiting, rfl, h.delivered⟩
  · cases hstep
    exact ⟨h.orderly, .inl ⟨hfree.queuedUp, hfree.state⟩, h.waiting, trivial, h.delivered⟩
  cases hstep
  exact ⟨fun _ => hfree.state, .inr (.inr trivial), h.waiting,
    ⟨hlen, fun hmic => hengine hmic cryptBuf mOff mLen s.aesCcm hfits hranges hfree⟩, h.delivered⟩

theorem Invariant.stepReceiveState (h : Invariant cipher keys s)
    (hstep : s.stepReceiveState profile = some s') : Invariant cipher keys s' := by
  have hrecv := h.receiving
  unfold Receiving at hrecv
  unfold Framer.stepReceiveState at hstep
  split at hstep
  · cases hstep
    exact h
  next info buf lqi hrx =>
    rw [hrx] at hrecv
    have hnot : ¬ s.rxState.Decrypting := by
      rw [hrx]
      exact id
    have hbusy := free_or_encrypting h hnot
    split at hstep
    · cases hstep
      exact ⟨h.orderly, hbusy.imp_right .inl, h.waiting, trivial, h.delivered⟩
    unfold Framer.beginDecrypt at hstep
    rw [hrecv] at hstep
    obtain ⟨_, -, hstep⟩ := bind_eq_some_iff.mp hstep
    cases hstep
    exact ⟨h.orderly, hbusy.imp Free.setKey_setNonce_iff.mpr .inl, h.waiting, trivial, h.delivered⟩
  · cases hstep
    exact h
  next hrx =>
    rw [hrx] at hrecv
    exact hrecv.elim

theorem inEngine_of_queued {mOff mLen : ℕ} (hinfo : r.frameInfo keys = some info)
    (hpassed : info.Passed r level key nonce) (hcomplete : r.Complete cipher info)
    (hauthentic : info.Authentic cipher r.frame) (hfits : r.buf.length ≤ cryptBuf.length)
    (hranges : info.ccmEncryptRanges profile = some (mOff, mLen)) (hfree : Free e) :
    InEngine cipher keys r info
      { (e.setKey key).setNonce nonce with
        queuedUp := some ⟨copyAt cryptBuf 0 r.buf, psduOffset, psduOffset + mOff,
          mLen, info.micLen, info.encryptionNeeded, true⟩ } := by
  have hlen := hpassed.unsecuredLen_eq hcomplete.holds
  have hshort := hcomplete.short
  have hmax : maxFrameSize = 127 := rfl
  obtain ⟨rfl, rfl⟩ := hpassed.ranges_eq (by omega) hranges
  exact ⟨hinfo, hcomplete, hauthentic, .inr ⟨cryptBuf, level, key, nonce, hpassed,
    hfits, .inl ⟨rfl, hfree.state, rfl, rfl⟩⟩⟩

theorem Invariant.receive (h : Invariant cipher keys s) (hsound : Sound cipher keys s (.receive r))
    (hstep : s.receive profile keys r = some s') : Invariant cipher keys s' := by
  unfold Framer.receive at hstep
  split at hstep
  · cases hstep
    exact h
  split at hstep
  swap
  · exact h.stepReceiveState hstep
  next hidle =>
  obtain ⟨⟨rxState, _⟩, hincoming, hstep⟩ := bind_eq_some_iff.mp hstep
  have hnot : ¬ s.rxState.Decrypting := by
    rw [hidle]
    exact id
  have hreceived : Invariant cipher keys { s with received := r, rxState := .idle } :=
    ⟨h.orderly, (free_or_encrypting h hnot).imp_right .inl, h.waiting, trivial, h.delivered⟩
  obtain ⟨rfl, rfl⟩ | ⟨d, hmic, rfl, rfl⟩ | ⟨info, _, rfl, rfl, hinfo, hdata⟩ :=
    incomingFrameSecurity_cases hincoming
  · exact hreceived.stepReceiveState hstep
  · -- a frame without security, or without a code
    have hdelivered : Invariant cipher keys { s with
        received := r
        rxState := .idle
        delivered := s.delivered ++ [(r, d)] } := by
      refine ⟨hreceived.orderly, hreceived.busy, hreceived.waiting, trivial, ?_⟩
      intro entry hentry
      rcases List.mem_append.mp hentry with hold | hnew
      · exact h.delivered entry hold
      · obtain rfl := List.mem_singleton.mp hnew
        exact fun hlen => absurd hmic hlen
    exact hdelivered.stepReceiveState hstep
  · obtain ⟨_, _, _, hpassed⟩ := exists_passed hinfo
    unfold Framer.stepReceiveState at hstep
    dsimp only at hstep
    split at hstep
    next hnone =>
      rw [hpassed.securityParams] at hnone
      cases hnone
    next level1 key1 nonce1 hsome =>
    rw [hpassed.securityParams] at hsome
    cases hsome
    refine Invariant.beginDecrypt hreceived hpassed.micLen.symm ?_ hstep
    intro hmic cryptBuf mOff mLen e hfits hranges hfree
    obtain ⟨hcomplete, hauthentic⟩ := hsound info hinfo hmic
    obtain rfl := hdata hcomplete.holds
    exact inEngine_of_queued hinfo hpassed hcomplete hauthentic hfits hranges hfree

/-! ## The end of an operation -/

theorem delivered_yielded {d : Delivery}
    (h : ∀ entry ∈ s.delivered, Proper cipher keys entry.1 entry.2)
    (hnew : Proper cipher keys s.received d) :
    ∀ entry ∈ (s.yielded buf d).delivered, Proper cipher keys entry.1 entry.2 := by
  intro entry hentry
  rcases List.mem_append.mp hentry with hold | hnew'
  · exact h entry hold
  · obtain rfl := List.mem_singleton.mp hnew'
    exact hnew

theorem yieldFrame_cases (h : s.yieldFrame profile info buf lqi = some s') :
    s' = { s with rxState := .idle } ∨ ∃ d, s' = s.yielded buf d := by
  obtain ⟨_, -, h⟩ := bind_eq_some_iff.mp h
  obtain ⟨_, -, h⟩ := bind_eq_some_iff.mp h
  obtain ⟨_, -, h⟩ := bind_eq_some_iff.mp h
  split at h
  · cases h
    exact .inl rfl
  obtain ⟨_, -, h⟩ := bind_eq_some_iff.mp h
  obtain ⟨_, -, h⟩ := bind_eq_some_iff.mp h
  cases h
  exact .inr ⟨_, rfl⟩

section

variable (h : Invariant cipher keys s)
include h

theorem Invariant.yieldFrame (hrx : s.rxState = .decrypting info lqi) (hfree : Free s.aesCcm)
    (hbuf : info.micLen ≠ 0 → part buf psduOffset info.unsecuredLen =
      info.unsecured cipher s.received.frame)
    (hstep : s.yieldFrame profile info buf lqi = some s') : Invariant cipher keys s' := by
  obtain ⟨hlen, hengine⟩ : info.micLen = s.received.micLen ∧
      (info.micLen ≠ 0 → InEngine cipher keys s.received info s.aesCcm) := by
    have hrecv := h.receiving
    unfold Receiving at hrecv
    rw [hrx] at hrecv
    exact hrecv
  by_cases hmic : info.micLen = 0
  · have hproper (d : Delivery) : Proper cipher keys s.received d :=
      fun hne => absurd (hlen.symm.trans hmic) hne
    obtain rfl | ⟨d, rfl⟩ := yieldFrame_cases hstep
    · exact ⟨h.orderly, .inl hfree, h.waiting, trivial, h.delivered⟩
    · exact ⟨h.orderly, .inl hfree, h.waiting, trivial, delivered_yielded h.delivered (hproper d)⟩
  have hin := hengine hmic
  obtain ⟨_, _, _, hpassed⟩ := exists_passed hin.frameInfo
  obtain ⟨d, hexact, hyield⟩ := yieldFrame_eq profile lqi hpassed
    hin.complete hmic (hbuf hmic) (room_of_yieldFrame hstep)
  rw [hyield] at hstep
  cases hstep
  exact ⟨h.orderly, .inl hfree, h.waiting, trivial, delivered_yielded h.delivered
    fun _ => ⟨info, hin.frameInfo, hin.authentic, hexact⟩⟩

theorem Invariant.cryptDone {done : CryptDone} (hfree : Free s.aesCcm)
    (hbuf : ∀ info lqi, s.rxState = .decrypting info lqi → info.micLen ≠ 0 →
      done.tagIsValid → part done.buf psduOffset info.unsecuredLen =
        info.unsecured cipher s.received.frame) (hstep : s.cryptDone profile done mac = some s') :
    Invariant cipher keys s' := by
  unfold Framer.cryptDone at hstep
  split at hstep
  · split at hstep
    · exact (h.setTx (.inl hfree) (by simp)).stepTransmitState hstep
    · cases hstep
      exact h.setTx (.inl hfree) (by simp)
  have hwaiting : s.txState.waiting = false := by
    have := h.waiting
    cases htx : s.txState <;> simp_all [TxState.waiting]
  split at hstep
  next info lqi hrx =>
    obtain ⟨_, hend, hstep⟩ := bind_eq_some_iff.mp hstep
    rw [hwaiting] at hstep
    cases hstep
    unfold endDecrypt at hend
    split at hend
    next hvalid =>
      -- the step only forgets that the frame was ready
      have hyield : s.yieldFrame profile info done.buf lqi = some s' := hend
      exact h.yieldFrame hrx hfree (fun hmic => hbuf info lqi hrx hmic hvalid) hyield
    cases hend
    exact ⟨h.orderly, .inl hfree, h.waiting, trivial, h.delivered⟩
  · rw [hwaiting] at hstep
    split at hstep
    next hnot => cases hnot
    next =>
      split at hstep
      · exact h.stepReceiveState hstep
      · cases hstep
        exact h

/-! ## The engine moves -/

theorem Invariant.setEngine (horderly : Orderly e)
    (hbusy : Free e ∨ s.txState.Encrypting ∨ s.rxState.Decrypting)
    (hengine : ∀ info lqi, s.rxState = .decrypting info lqi → info.micLen ≠ 0 →
      InEngine cipher keys s.received info e) : Invariant cipher keys { s with aesCcm := e } := by
  refine ⟨horderly, hbusy, h.waiting, ?_, h.delivered⟩
  have hrecv := h.receiving
  unfold Receiving at hrecv ⊢
  dsimp only
  split at hrecv
  · trivial
  · exact hrecv
  next info lqi hrx => exact ⟨hrecv.1, hengine info lqi hrx⟩
  · exact hrecv

theorem Invariant.inEngine (hrx : s.rxState = .decrypting info lqi) (hmic : info.micLen ≠ 0) :
    InEngine cipher keys s.received info s.aesCcm := by
  have hrecv := h.receiving
  unfold Receiving at hrecv
  rw [hrx] at hrecv
  exact hrecv.2 hmic

/-- What the two moves of the engine have in common: the frame stays in the engine,
or the engine is free, and a valid tag comes with the decrypted frame. -/
structure Moved (cipher : Cipher) (keys : KeyProcedure) (s : Framer)
    (e : VirtualAES128CCM) (done : Option CryptDone) : Prop where
  orderly : Orderly e
  free : done ≠ none → Free e
  idle : Free s.aesCcm → Free e
  engine : ∀ info lqi, s.rxState = .decrypting info lqi → info.micLen ≠ 0 →
    InEngine cipher keys s.received info e
  buf : ∀ info lqi, s.rxState = .decrypting info lqi → info.micLen ≠ 0 →
    ∀ d ∈ done, d.tagIsValid = true → part d.buf psduOffset info.unsecuredLen =
      info.unsecured cipher s.received.frame

theorem Invariant.afterEngine (hmoved : Moved cipher keys s e done)
    (hstep : s.afterEngine profile mac (e, done) = some s') : Invariant cipher keys s' := by
  have hset : Invariant cipher keys { s with aesCcm := e } := by
    refine h.setEngine hmoved.orderly ?_ hmoved.engine
    exact h.busy.imp_left hmoved.idle
  cases done with
  | none =>
    cases hstep
    exact hset
  | some d =>
    exact hset.cryptDone (hmoved.free (by simp))
      (fun info lqi hrx hmic => hmoved.buf info lqi hrx hmic d rfl) hstep

end

theorem InEngine.keep {e' : VirtualAES128CCM} (h : InEngine cipher keys r info e)
    (hengine : Free e' ∨ ∃ cryptBuf level key nonce, info.Passed r level key nonce ∧
      r.buf.length ≤ cryptBuf.length ∧ Processing (info.request (copyAt cryptBuf 0 r.buf)) key
      nonce e') : InEngine cipher keys r info e' :=
  ⟨h.frameInfo, h.complete, h.authentic, hengine⟩

theorem length_copied (h : buf.length ≤ cryptBuf.length) :
    buf.length ≤ (copyAt cryptBuf 0 buf).length := by
  rw [length_copyAt (by omega)]
  exact h

/-- What the engine does with the request it works on decides what becomes of the frame. -/
theorem Invariant.moved (h : Invariant cipher keys s) (horderly : Orderly e)
    (hfree : done ≠ none → Free e) (hidle : Free s.aesCcm → done = none ∧ Free e)
    (hprocessing : ∀ p key nonce, p.Encryption → Processing p key nonce s.aesCcm →
      (done = none ∧ Processing p key nonce e) ∨ (Free e ∧ ∀ d ∈ done, d.tagIsValid = true →
        ∃ tag, tag.length = p.micLen ∧ d.buf = encryptedBuf cipher key nonce p tag)) :
    Moved cipher keys s e done := by
  have hcases {info : FrameInfo} {lqi : Byte}
      (hrx : s.rxState = .decrypting info lqi) (hmic : info.micLen ≠ 0) :
      InEngine cipher keys s.received info e ∧ ∀ d ∈ done, d.tagIsValid = true →
        part d.buf psduOffset info.unsecuredLen = info.unsecured cipher s.received.frame := by
    have hin := h.inEngine hrx hmic
    obtain hempty | ⟨cryptBuf, level, key, nonce, hpassed, hfits, hworking⟩ := hin.engine
    · obtain ⟨rfl, hnow⟩ := hidle hempty
      exact ⟨hin.keep (.inl hnow), by simp⟩
    have hp := hpassed.request_encryption hin.complete (length_copied hfits)
    obtain ⟨rfl, hnext⟩ | ⟨hnow, hdone⟩ := hprocessing _ key nonce hp hworking
    · exact ⟨hin.keep (.inr ⟨cryptBuf, level, key, nonce, hpassed, hfits, hnext⟩), by simp⟩
    refine ⟨hin.keep (.inl hnow), ?_⟩
    intro d hd hvalid
    obtain ⟨tag, htag, hbuf⟩ := hdone d hd hvalid
    rw [hbuf]
    exact (hpassed.take_encryptedBuf hin.complete hfits htag).2
  exact ⟨horderly, hfree, fun hempty => (hidle hempty).2, fun _ _ hrx hmic => (hcases hrx hmic).1,
    fun _ _ hrx hmic => (hcases hrx hmic).2⟩

theorem Invariant.moved_doNextOp (h : Invariant cipher keys s)
    (hop : s.aesCcm.doNextOp profile = some (e, done)) : Moved cipher keys s e done := by
  obtain ⟨horderly, hfree⟩ := h.orderly.doNextOp hop
  refine h.moved horderly hfree ?_ ?_
  · intro hidle
    rw [doNextOp_of_empty hidle.queuedUp] at hop
    cases hop
    exact ⟨rfl, hidle⟩
  · intro p key nonce hp hprocessing
    refine (hprocessing.doNextOp hp hop).imp_right (And.imp_right ?_)
    intro hinvalid d hd hvalid
    rw [hinvalid d hd] at hvalid
    cases hvalid

theorem Invariant.moved_aesDone (h : Invariant cipher keys s)
    (hop : s.aesCcm.aesDone cipher = some (e, done)) : Moved cipher keys s e done := by
  obtain ⟨horderly, hfree⟩ := h.orderly.aesDone hop
  refine h.moved horderly hfree ?_ ?_
  · intro hidle
    obtain ⟨_, hdone, hnext⟩ : ∃ e', s.aesCcm.aesDone cipher = some (e', none) ∧ Free e' :=
      hidle.aesDone
    rw [hdone] at hop
    cases hop
    exact ⟨rfl, hnext⟩
  · intro p key nonce hp hprocessing
    refine (hprocessing.aesDone hp hop).imp_right (And.imp_right ?_)
    rintro ⟨tag, htag, rfl⟩ _ ⟨⟩ _
    exact ⟨tag, htag, rfl⟩

/-! ## Runs -/

/-- One event of the framer keeps the invariant. -/
theorem Invariant.step (h : Invariant cipher keys s) {event : Event}
    (hsound : Sound cipher keys s event) (hstep : s.step profile cipher keys event = some s') :
    Invariant cipher keys s' := by
  cases event with
  | receive r => exact h.receive hsound hstep
  | transmit info buf mac => exact h.transmit hsound hstep
  | configDone mac => exact h.stepTransmitState hstep
  | deferredCall mac =>
    obtain ⟨⟨e, done⟩, hop, hstep⟩ := bind_eq_some_iff.mp hstep
    exact h.afterEngine (h.moved_doNextOp hop) hstep
  | aesDone mac =>
    obtain ⟨⟨e, done⟩, hop, hstep⟩ := bind_eq_some_iff.mp hstep
    exact h.afterEngine (h.moved_aesDone hop) hstep

def SoundRun (profile : Profile) (cipher : Cipher) (keys : KeyProcedure) :
    List Event → Framer → Prop
  | [], _ => True
  | event :: events, s => Sound cipher keys s event ∧
      ∀ s', s.step profile cipher keys event = some s' → SoundRun profile cipher keys events s'

theorem Invariant.run {events : List Event} (h : Invariant cipher keys s)
    (hsound : SoundRun profile cipher keys events s)
    (hrun : run profile cipher keys events s = some s') : Invariant cipher keys s' := by
  induction events generalizing s with
  | nil =>
    cases hrun
    exact h
  | cons event events ih =>
    obtain ⟨s1, hstep, hrun⟩ := bind_eq_some_iff.mp hrun
    exact ih (h.step hsound.1 hstep) (hsound.2 s1 hstep) hrun

/-! ## A frame on its way to the client -/

/-- Both pipelines are free, and so is the engine, with buffers that are large
enough. -/
structure Ready (s : Framer) (r : Reception) : Prop where
  tx : s.txState = .idle
  rx : s.rxState = .idle
  free : Free s.aesCcm
  inflight : s.aesCcm.inflight = false
  engineBuf : ∃ cbuf, s.aesCcm.cryptBuf = some cbuf ∧ maxFrameSize + 48 ≤ cbuf.length
  cryptBuf : ∃ cryptBuf, s.cryptBuf = some cryptBuf ∧
    r.buf.length ≤ cryptBuf.length ∧ psduOffset + maxFrameSize ≤ cryptBuf.length

theorem incomingFrameSecurity_eq (hinfo : r.frameInfo keys = some info)
    (hholds : info.dataOffset + info.micLen ≤ r.frameLen) :
    s.incomingFrameSecurity profile keys r.buf r.frameLen r.lqi =
      some (.readyToDecrypt info r.buf r.lqi, s) := by
  obtain ⟨⟨dataOffset, header, macPayloadOffset⟩, hheader, hinfo⟩ := bind_eq_some_iff.mp hinfo
  obtain ⟨security, hsecurity, hinfo⟩ := bind_eq_some_iff.mp hinfo
  obtain ⟨_, _, rfl⟩ := incomingFrameInfo_eq_some hinfo
  obtain ⟨frame, hframe, hdecode⟩ := bind_eq_some_iff.mp hheader
  dsimp only at hholds
  have hdone : decodeDone frame false = some (some (dataOffset, header, macPayloadOffset)) := by
    split at hdecode <;> cases hdecode
    next hdecode => rw [decodeDone, hdecode]
  unfold incomingFrameSecurity
  simp only [hframe, hdone, hsecurity, bind, Option.bind_some, sub_of_le profile
    (show dataOffset ≤ r.frameLen by omega), sub_of_le profile
    (show security.level.micLen ≤ r.frameLen - dataOffset by omega), Except.toOption, hinfo]
  rfl

theorem receive_eq (hready : s.Ready r) (hcrc : r.crcValid) (hinfo : r.frameInfo keys = some info)
    (hpassed : info.Passed r level key nonce) (hcomplete : r.Complete cipher info)
    (htype : info.frameType ≠ .beacon ∧ info.frameType ≠ .macCommand)
    (hcryptBuf : s.cryptBuf = some cryptBuf) (hfits : r.buf.length ≤ cryptBuf.length) :
    s.receive profile keys r = some { s with
      received := r
      cryptBuf := none
      rxState := .decrypting info r.lqi
      aesCcm := { (s.aesCcm.setKey key).setNonce nonce with
        queuedUp := some (info.request (copyAt cryptBuf 0 r.buf)) } } := by
  have hlen := hpassed.unsecuredLen_eq hcomplete.holds
  have hshort := hcomplete.short
  have hmax : maxFrameSize = 127 := rfl
  have hranges : info.ccmEncryptRanges profile =
      some (info.openLen, info.unsecuredLen - info.openLen) :=
    hpassed.ccmEncryptRanges_eq htype (by omega)
  have hp := hpassed.request_encryption hcomplete (length_copied hfits)
  have hfree : Free ((s.aesCcm.setKey key).setNonce nonce) :=
    VirtualAES128CCM.Free.setKey_setNonce_iff.mpr hready.free
  have hcrypt : VirtualAES128CCM.crypt profile ((s.aesCcm.setKey key).setNonce nonce)
        (info.request (copyAt cryptBuf 0 r.buf)) = _ :=
    VirtualAES128CCM.crypt_of_free hfree hp
  have hguard : (guard (r.buf.length ≤ cryptBuf.length) : Option Unit) = some () := if_pos hfits
  unfold Framer.receive
  rw [hcrc, hready.rx]
  simp only [bind, incomingFrameSecurity_eq hinfo
    hcomplete.holds, Option.bind_some, Framer.stepReceiveState, hpassed.securityParams,
    Framer.beginDecrypt, hcryptBuf, hguard, Framer.crypt, hranges]
  change Option.bind (Option.bind (VirtualAES128CCM.crypt profile
    ((s.aesCcm.setKey key).setNonce nonce) (info.request (copyAt cryptBuf 0 r.buf))) _) _ = _
  rw [hcrypt]
  rfl

theorem cryptDone_eq {done : CryptDone} (htx : s.txState = .idle)
    (hrx : s.rxState = .decrypting info lqi) (hvalid : done.tagIsValid) :
    s.cryptDone profile done mac = s.yieldFrame profile info done.buf lqi := by
  have hend : s.endDecrypt profile info lqi done = s.yieldFrame profile info done.buf lqi := by
    unfold endDecrypt
    rw [if_pos hvalid]
    rfl
  unfold Framer.cryptDone
  simp only [htx, hrx, hend]
  exact bind_pure _

def reception (r : Reception) : List Event :=
  [.receive r, .deferredCall .ok, .aesDone .ok, .aesDone .ok]

theorem exists_delivery (profile : Profile) (hready : s.Ready r)
    (hcrc : r.crcValid) (hinfo : r.frameInfo keys = some info)
    (hmic : info.micLen ≠ 0) (hcomplete : r.Complete cipher info)
    (htype : info.frameType ≠ .beacon ∧ info.frameType ≠ .macCommand) :
    ∃ s' d, run profile cipher keys (reception r) s = some s' ∧
      s'.delivered = s.delivered ++ [(r, d)] ∧ d.Exact cipher info r := by
  obtain ⟨_, key, nonce, hpassed⟩ := exists_passed hinfo
  obtain ⟨cryptBuf, hcryptBuf, hfits, hsize⟩ := hready.cryptBuf
  obtain ⟨cbuf, hcbuf, hroom⟩ := hready.engineBuf
  have hlen := hpassed.unsecuredLen_eq hcomplete.holds
  have hopen := hpassed.openLen_le
  have hshort := hcomplete.short
  have hmax : maxFrameSize = 127 := rfl
  have hp := hpassed.request_encryption hcomplete (length_copied hfits)
  -- the engine queues the frame, authenticates it and applies the key stream
  let e1 : VirtualAES128CCM := { (s.aesCcm.setKey key).setNonce nonce with
    queuedUp := some (info.request (copyAt cryptBuf 0 r.buf)) }
  have hqueued : Queued (info.request (copyAt cryptBuf 0 r.buf)) key
      nonce e1 := ⟨rfl, hready.free.state, rfl, rfl⟩
  have hdata : psduOffset + info.openLen - psduOffset +
      (info.unsecuredLen - info.openLen) + 48 ≤ cbuf.length := by omega
  have haData : psduOffset + info.openLen - psduOffset < 0xff00 := by omega
  obtain ⟨e2, _, hop, hauth⟩ : ∃ e' cbuf', e1.doNextOp profile = some (e', none) ∧
      Authenticating _ key nonce cbuf' e' :=
    hqueued.doNextOp_of_room hp hready.inflight hcbuf hdata haData
  obtain ⟨e3, _, hfirst, hencrypt⟩ : ∃ e' cbuf', e2.aesDone cipher = some (e', none) ∧
        Encrypting _ key nonce cbuf' e' := hauth.aesDone hp
  obtain ⟨e4, tag, htag, -, hsecond⟩ : ∃ e' tag,
      tag.length = info.micLen ∧ Free e' ∧ e3.aesDone cipher = some (e', some
        ⟨encryptedBuf cipher key nonce (info.request (copyAt cryptBuf 0 r.buf)) tag, true, true⟩) :=
    hencrypt.aesDone hp
  obtain ⟨hlength, hbuf⟩ := hpassed.take_encryptedBuf hcomplete hfits htag
  generalize encryptedBuf cipher key nonce
    (info.request (copyAt cryptBuf 0 r.buf)) tag = buf at hsecond hlength hbuf
  -- the states of the framer in between
  let s1 : Framer := { s with
    received := r
    cryptBuf := none
    rxState := .decrypting info r.lqi
    aesCcm := e1 }
  let s4 : Framer := { s1 with aesCcm := e4 }
  obtain ⟨d, hexact, hyield⟩ : ∃ d : Delivery, d.Exact cipher info r ∧
      s4.yieldFrame profile info buf r.lqi = some (s4.yielded buf d) :=
    yieldFrame_eq (s := s4) profile r.lqi hpassed hcomplete hmic hbuf (hlength ▸ hsize)
  have hreceive : s.step profile cipher keys (.receive r) = some s1 :=
    receive_eq hready hcrc hinfo hpassed hcomplete htype hcryptBuf hfits
  have hdeferred : s1.step profile cipher keys (.deferredCall .ok) =
      some { s1 with aesCcm := e2 } := by
    change Option.bind (e1.doNextOp profile) _ = _
    rw [hop]
    rfl
  have hauthenticated : ({ s1 with aesCcm := e2 } : Framer).step profile cipher keys
      (.aesDone .ok) = some { s1 with aesCcm := e3 } := by
    change Option.bind (e2.aesDone cipher) _ = _
    rw [hfirst]
    rfl
  have hdone : s4.cryptDone profile ⟨buf, true, true⟩ .ok = some (s4.yielded buf d) := by
    rw [cryptDone_eq (s := s4) hready.tx rfl rfl, hyield]
  have hdelivered : ({ s1 with aesCcm := e3 } : Framer).step profile cipher keys
      (.aesDone .ok) = some (s4.yielded buf d) := by
    change Option.bind (e3.aesDone cipher) _ = _
    rw [hsecond]
    exact hdone
  refine ⟨s4.yielded buf d, d, ?_, rfl, hexact⟩
  simp [reception, run, hreceive, hdeferred, hauthenticated, hdelivered]

def new (aesCcm : VirtualAES128CCM) (cryptBuf : List Byte) : Framer :=
  { aesCcm := aesCcm
    txState := .idle
    rxState := .idle
    cryptBuf := some cryptBuf
    received := ⟨[], 0, 0, false⟩
    delivered := [] }

theorem Invariant.new {aesCcm : VirtualAES128CCM} (hfree : Free aesCcm)
    (cryptBuf : List Byte) : Invariant cipher keys (new aesCcm cryptBuf) :=
  ⟨hfree.orderly, .inl hfree, by simp [Framer.new], trivial, by simp [Framer.new]⟩

/-- In a run of sound events only authentic frames are delivered, and exactly. A
complete frame that is not authentic is delivered all the same. -/
theorem secured_frames_authentic (profile : Profile) (cipher : Cipher) (keys : KeyProcedure) :
    (∀ (aesCcm : VirtualAES128CCM) (cryptBuf : List Byte) (events : List Event)
        (s : Framer), Free aesCcm → SoundRun profile cipher keys events (new aesCcm cryptBuf) →
      run profile cipher keys events (new aesCcm cryptBuf) = some s →
      ∀ entry ∈ s.delivered, Proper cipher keys entry.1 entry.2) ∧
    ∀ (s : Framer) (r : Reception) (info : FrameInfo), s.Ready r →
      r.crcValid = true → r.frameInfo keys = some info → info.micLen ≠ 0 → r.Complete cipher info →
      info.frameType ≠ .beacon ∧ info.frameType ≠ .macCommand →
      ∃ s' d, run profile cipher keys (reception r) s = some s' ∧
        s'.delivered = s.delivered ++ [(r, d)] ∧
        (Proper cipher keys r d ↔ info.Authentic cipher r.frame) := by
  constructor
  · intro aesCcm cryptBuf events s hfree hsound hrun
    exact ((Invariant.new hfree cryptBuf).run hsound hrun).delivered
  · intro s r info hready hcrc hinfo hmic hcomplete htype
    obtain ⟨s', d, hrun, hdelivered, hexact⟩ :=
      exists_delivery profile hready hcrc hinfo hmic hcomplete htype
    refine ⟨s', d, hrun, hdelivered, ?_⟩
    constructor
    · intro hproper
      obtain ⟨_, _, _, hpassed⟩ := exists_passed hinfo
      obtain ⟨_, hinfo', hauthentic, -⟩ := hproper (hpassed.micLen ▸ hmic)
      rw [hinfo] at hinfo'
      cases hinfo'
      exact hauthentic
    · intro hauthentic _
      exact ⟨info, hinfo, hauthentic, hexact⟩

/-! ## A frame with four bytes of code -/

def sampleCipher : Cipher := fun key block => key ^^^ block.rotateLeft 3

def sampleKeys : KeyProcedure := fun _ _ => some 0x0123456789abcdef0123456789abcdef

def sampleHeader : Header where
  frameType := .data
  framePending := false
  ackRequested := false
  version := .v2006
  seq := some 7
  dstPan := none
  dstAddr := none
  srcPan := some 0x1122
  srcAddr := some (.long ⟨#[8, 7, 6, 5, 4, 3, 2, 1], rfl⟩)
  security := some ⟨.encMic32, false, some 0x01000000, .implicit⟩
  headerIes := Header.noHeaderIes
  headerIesLen := 0
  payloadIes := Header.noPayloadIes
  payloadIesLen := 0

def sampleHeaderBytes : List Byte :=
  [0x09, 0xd0, 7, 0x22, 0x11, 1, 2, 3, 4, 5, 6, 7, 8, 0x05, 0, 0, 0, 1]

def sampleReception (authentic : Bool) : Reception where
  buf := [0, 0] ++ sampleHeaderBytes ++ [0xaa, 0xbb, 0xcc] ++
    (if authentic then [0xb5, 0xa7, 0xcd, 0xe3] else [0, 0, 0, 0]) ++ [0]
  frameLen := 25
  lqi := 0
  crcValid := true

def sampleInfo : FrameInfo where
  frameType := .data
  macPayloadOffset := 18
  dataOffset := 18
  dataLen := 3
  micLen := 4
  securityParams := some (.encMic32, 0x0123456789abcdef0123456789abcdef,
    getCcmNonce ⟨#[8, 7, 6, 5, 4, 3, 2, 1], rfl⟩ 0x01000000 .encMic32)

def sampleEngine : VirtualAES128CCM where
  cryptBuf := some (List.replicate 178 0)
  cryptAuthLen := 0
  cryptEncLen := 0
  state := .idle
  confidential := true
  encrypting := true
  buf := none
  pos := (0, 0, 0, 0)
  key := 0
  nonce := []
  savedTag := []
  queuedUp := none
  inflight := false
  aes := none

def sampleFramer : Framer := new sampleEngine (List.replicate 130 0)

theorem sampleReception_length : ∀ authentic, (sampleReception authentic).buf.length = 28 := by
  decide

theorem sampleFramer_ready (authentic : Bool) : sampleFramer.Ready (sampleReception authentic) where
  tx := rfl
  rx := rfl
  free := ⟨rfl, rfl⟩
  inflight := rfl
  engineBuf := ⟨_, rfl, by rw [List.length_replicate]; decide⟩
  cryptBuf := ⟨_, rfl, by rw [sampleReception_length, List.length_replicate]; decide,
    by rw [List.length_replicate]; decide⟩

theorem sampleHeader_parses : Header.Parses sampleHeaderBytes sampleHeader := by
  have hencode : sampleHeader.encode true 64 = .done 18 (sampleHeaderBytes, 18) := by decide
  intro rest
  exact Header.decode_of_roundTrips (Header.encoded_of_encode hencode).1
    ⟨goodIes_noHeaderIes, rfl, rfl, .inr rfl⟩ rest true

theorem sample_frameInfo : ∀ authentic,
    (sampleReception authentic).frameInfo sampleKeys = some sampleInfo := by
  decide +kernel

theorem sample_unsecured : ∀ authentic,
    sampleInfo.unsecured sampleCipher (sampleReception authentic).frame =
      sampleHeaderBytes ++ [0xa3, 0xd8, 0xb1] := by
  decide +kernel

theorem sample_complete (authentic : Bool) :
    (sampleReception authentic).Complete sampleCipher sampleInfo where
  short := by decide +revert
  fits := by
    decide +revert
  holds := by decide +revert
  header := ⟨_, _, _, sample_unsecured authentic, sampleHeader_parses⟩

theorem sample_authentic_iff : ∀ authentic,
    sampleInfo.Authentic sampleCipher (sampleReception authentic).frame ↔ authentic := by
  change ∀ authentic, sampleInfo.receivedMic (sampleReception authentic).frame =
    Ccm.mic sampleCipher 0x0123456789abcdef0123456789abcdef
      (getCcmNonce ⟨#[8, 7, 6, 5, 4, 3, 2, 1], rfl⟩ 0x01000000 .encMic32) 4
      (sampleInfo.aData (sampleReception authentic).frame)
      (Ccm.crypt sampleCipher 0x0123456789abcdef0123456789abcdef
        (getCcmNonce ⟨#[8, 7, 6, 5, 4, 3, 2, 1], rfl⟩ 0x01000000 .encMic32)
        (sampleInfo.mData (sampleReception authentic).frame)) ↔ authentic
  decide +kernel

/-- The sample frame with its own code, received by a new framer. -/
theorem secured_frames_authentic_sample :
    (∀ s, run .dev sampleCipher sampleKeys (reception (sampleReception true))
        sampleFramer = some s →
      ∀ entry ∈ s.delivered, Proper sampleCipher sampleKeys entry.1 entry.2) ∧
    ∃ s' d, run .dev sampleCipher sampleKeys (reception (sampleReception true))
        sampleFramer = some s' ∧ s'.delivered = [(sampleReception true, d)] ∧
      Proper sampleCipher sampleKeys (sampleReception true) d := by
  obtain ⟨hruns, hreception⟩ := secured_frames_authentic .dev sampleCipher sampleKeys
  have hauthentic := (sample_authentic_iff true).mpr rfl
  have hsound : Sound sampleCipher sampleKeys sampleFramer (.receive (sampleReception true)) := by
    intro info hinfo _
    cases hinfo
    exact ⟨sample_complete true, hauthentic⟩
  constructor
  · intro s
    exact hruns sampleEngine _ _ s ⟨rfl, rfl⟩ ⟨hsound, fun _ _ => ⟨trivial,
      fun _ _ => ⟨trivial, fun _ _ => ⟨trivial, fun _ _ => trivial⟩⟩⟩⟩
  · obtain ⟨s', d, hrun, hdelivered, hproper⟩ := hreception sampleFramer
      (sampleReception true) sampleInfo (sampleFramer_ready true) rfl
      (sample_frameInfo true) (by decide) (sample_complete true) (by decide)
    exact ⟨s', d, hrun, hdelivered, hproper.mpr hauthentic⟩

/-- With a code of zeroes the frame is not authentic, and the client gets its
payload. -/
theorem forged_frame_delivered :
    ∃ s' d, run .dev sampleCipher sampleKeys (reception (sampleReception false))
        sampleFramer = some s' ∧ s'.delivered = [(sampleReception false, d)] ∧
      d.payload = [0xa3, 0xd8, 0xb1] ∧
      sampleInfo.receivedMic (sampleReception false).frame = [0, 0, 0, 0] ∧
      ¬ Proper sampleCipher sampleKeys (sampleReception false) d := by
  obtain ⟨s', d, hrun, hdelivered, hexact⟩ := exists_delivery .dev
    (sampleFramer_ready false) rfl (sample_frameInfo false) (by decide)
    (sample_complete false) (by decide)
  refine ⟨s', d, hrun, hdelivered, hexact.payload_eq (sample_unsecured false)
    sampleHeader_parses, by decide +kernel, ?_⟩
  intro hproper
  obtain ⟨_, hinfo, hauthentic, -⟩ := hproper (by decide +kernel)
  cases hinfo
  exact Bool.false_ne_true ((sample_authentic_iff false).mp hauthentic)

end Framer

end TockKernel.Net

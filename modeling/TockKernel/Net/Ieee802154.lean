import TockKernel.Net.Stream

/-!
# IEEE 802.15.4 headers

A model of `capsules/extra/src/net/ieee802154.rs`.
-/

namespace TockKernel.Net

inductive AddressMode where
  | notPresent
  | short
  | long
  deriving DecidableEq, Repr

namespace AddressMode

def toU16 : AddressMode → BitVec 16
  | .notPresent => 0b00
  | .short => 0b10
  | .long => 0b11

def fromMode (mode : BitVec 16) : Option AddressMode :=
  if mode = 0b00 then some .notPresent
  else if mode = 0b10 then some .short
  else if mode = 0b11 then some .long
  else none

end AddressMode

inductive MacAddress where
  | short (addr : BitVec 16)
  | long (addr : Vector Byte 8)
  deriving DecidableEq, Repr

namespace MacAddress

def encode : MacAddress → Encoder Unit
  | .short addr => encodeU16 (be16 addr)
  | .long addr => encodeBytesBe addr

def decode (mode : AddressMode) (buf : List Byte) : SResult (Option MacAddress) :=
  match mode with
  | .notPresent => .done 0 none
  | .short =>
    decTry buf 0 decodeU16 fun off shortAddrBe =>
      .done off (some (.short (be16 shortAddrBe)))
  | .long =>
    decTry buf 0 (decodeBytesBe 8) fun off longAddr =>
      .done off (some (.long longAddr))

end MacAddress

def AddressMode.ofAddress : Option MacAddress → AddressMode
  | none => .notPresent
  | some (.short _) => .short
  | some (.long _) => .long

abbrev PanID := BitVec 16

inductive FrameType where
  | beacon
  | data
  | acknowledgement
  | macCommand
  | multipurpose
  | fragment
  | extended
  deriving DecidableEq, Repr

namespace FrameType

def toU16 : FrameType → BitVec 16
  | .beacon => 0b000
  | .data => 0b001
  | .acknowledgement => 0b010
  | .macCommand => 0b011
  | .multipurpose => 0b101
  | .fragment => 0b110
  | .extended => 0b111

def fromFcf (fcf : BitVec 16) : Option FrameType :=
  let bits := fcf &&& 0b111
  if bits = 0b000 then some .beacon
  else if bits = 0b001 then some .data
  else if bits = 0b010 then some .acknowledgement
  else if bits = 0b011 then some .macCommand
  else if bits = 0b101 then some .multipurpose
  else if bits = 0b110 then some .fragment
  else if bits = 0b111 then some .extended
  else none

end FrameType

inductive FrameVersion where
  | v2003
  | v2006
  | v2015
  deriving DecidableEq, Repr

namespace FrameVersion

def toU16 : FrameVersion → BitVec 16
  | .v2003 => 0x0000
  | .v2006 => 0x1000
  | .v2015 => 0x2000

def fromFcf (fcf : BitVec 16) : Option FrameVersion :=
  let bits := fcf &&& 0x3000
  if bits = 0x0000 then some .v2003
  else if bits = 0x1000 then some .v2006
  else if bits = 0x2000 then some .v2015
  else none

end FrameVersion

/-! ## The auxiliary security header -/

inductive SecurityLevel where
  | none
  | mic32
  | mic64
  | mic128
  | encMic32
  | encMic64
  | encMic128
  deriving DecidableEq, Repr

namespace SecurityLevel

def toU8 : SecurityLevel → Byte
  | .none => 0b000
  | .mic32 => 0b001
  | .mic64 => 0b010
  | .mic128 => 0b011
  | .encMic32 => 0b101
  | .encMic64 => 0b110
  | .encMic128 => 0b111

def fromScf (scf : Byte) : Option SecurityLevel :=
  let bits := scf &&& 0b111
  if bits = 0b000 then some .none
  else if bits = 0b001 then some .mic32
  else if bits = 0b010 then some .mic64
  else if bits = 0b011 then some .mic128
  else if bits = 0b101 then some .encMic32
  else if bits = 0b110 then some .encMic64
  else if bits = 0b111 then some .encMic128
  else Option.none

def encryptionNeeded : SecurityLevel → Bool
  | .encMic32 | .encMic64 | .encMic128 => true
  | _ => false

def micLen : SecurityLevel → ℕ
  | .mic32 | .encMic32 => 4
  | .mic64 | .encMic64 => 8
  | .mic128 | .encMic128 => 16
  | .none => 0

end SecurityLevel

inductive KeyIdMode where
  | implicit
  | index
  | source4Index
  | source8Index
  deriving DecidableEq, Repr

namespace KeyIdMode

def toU8 : KeyIdMode → Byte
  | .implicit => 0x00
  | .index => 0x08
  | .source4Index => 0x10
  | .source8Index => 0x18

def fromScf (scf : Byte) : KeyIdMode :=
  let bits := scf &&& 0x18
  if bits = 0x00 then .implicit
  else if bits = 0x08 then .index
  else if bits = 0x10 then .source4Index
  else .source8Index

end KeyIdMode

inductive KeyId where
  | implicit
  | index (index : Byte)
  | source4Index (src : Vector Byte 4) (index : Byte)
  | source8Index (src : Vector Byte 8) (index : Byte)
  deriving DecidableEq, Repr

def KeyIdMode.ofKeyId : KeyId → KeyIdMode
  | .implicit => .implicit
  | .index _ => .index
  | .source4Index _ _ => .source4Index
  | .source8Index _ _ => .source8Index

namespace KeyId

def encodeSource {n : ℕ} (src : Vector Byte n) (index : Byte) : Encoder Unit :=
  fun room =>
    encTry room 0 (encodeBytesBe src) fun off srcBytes _ =>
      encTry room off (encodeU8 index) fun off indexBytes _ =>
        .done off (srcBytes ++ indexBytes, ())

def decodeSource (n : ℕ) (make : Vector Byte n → Byte → KeyId) (buf : List Byte) : SResult KeyId :=
  decTry buf 0 (decodeBytesBe n) fun off src =>
    decTry buf off decodeU8 fun off index => .done off (make src index)

def encode : KeyId → Encoder Unit
  | .implicit => fun _ => .done 0 ([], ())
  | .index i => encodeU8 i
  | .source4Index src i => encodeSource src i
  | .source8Index src i => encodeSource src i

def decode (mode : KeyIdMode) (buf : List Byte) : SResult KeyId :=
  match mode with
  | .implicit => .done 0 .implicit
  | .index => decTry buf 0 decodeU8 fun off i => .done off (.index i)
  | .source4Index => decodeSource 4 .source4Index buf
  | .source8Index => decodeSource 8 .source8Index buf

end KeyId

structure Security where
  level : SecurityLevel
  asnInNonce : Bool
  frameCounter : Option (BitVec 32)
  keyId : KeyId
  deriving DecidableEq, Repr

/-- `if b { word |= mask }`. -/
def setFlag {w : ℕ} (b : Bool) (mask word : BitVec w) : BitVec w :=
  if b then word ||| mask else word

def encodeOption {σ : Type*} (encode : σ → Encoder Unit) : Option σ → Encoder Unit
  | none => fun _ => .done 0 ([], ())
  | some x => encode x

namespace Security

def scf (s : Security) : Byte :=
  let scf := s.level.toU8
  let scf := setFlag s.asnInNonce 0x40 scf
  let scf := setFlag s.frameCounter.isNone 0x20 scf
  scf ||| (KeyIdMode.ofKeyId s.keyId).toU8

def encode (s : Security) : Encoder Unit := fun room =>
  if room < 1 then
    .needed 1
  else
    encTry room 1 (encodeOption (fun c => encodeU32 (be32 c)) s.frameCounter)
      fun off counterBytes _ =>
        encTry room off s.keyId.encode fun off keyBytes _ =>
          .done off (s.scf :: (counterBytes ++ keyBytes), ())

def decodeCounter (present : Bool) (buf : List Byte) : SResult (Option (BitVec 32)) :=
  if present then
    decTry buf 0 decodeU32 fun off frameCounterBe =>
      .done off (some (be32 frameCounterBe))
  else
    .done 0 none

def decode (buf : List Byte) : SResult Security :=
  decTry buf 0 decodeU8 fun off scf =>
    match SecurityLevel.fromScf scf with
    | none => .error
    | some level =>
      let asnInNonce := scf &&& 0x40 ≠ 0
      let frameCounterPresent := scf &&& 0x20 = 0
      decTry buf off (decodeCounter frameCounterPresent) fun off frameCounter =>
          let keyIdMode := KeyIdMode.fromScf scf
          decTry buf off (KeyId.decode keyIdMode) fun off keyId =>
            .done off ⟨level, asnInNonce, frameCounter, keyId⟩

end Security

/-! ## Information elements -/

inductive HeaderIE where
  | undissected (elementId : Byte) (content : List Byte)
  | termination1
  | termination2
  deriving DecidableEq, Repr

/-- The content of an element comes after the control word that begins it: its
length below and its identifier above. -/
def encodeElement (lenMax pos : ℕ) (id : Byte) (content : List Byte) : Encoder Unit := fun room =>
  encTry room 2 (encodeBytes content) fun off contentBytes _ =>
    let contentLen := off - 2
    if contentLen ≤ lenMax then
      let ieCtl := (BitVec.ofNat 16 contentLen &&& BitVec.ofNat 16 lenMax) |||
        (id.setWidth 16 <<< pos)
      encTry room 0 (encodeU16 (be16 ieCtl)) fun _ ctlBytes _ =>
        .done off (ctlBytes ++ contentBytes, ())
    else
      .error

def encodeTermination (pos : ℕ) (id : Byte) : Encoder Unit := fun room =>
  encTry room 0 (encodeU16 (be16 (id.setWidth 16 <<< pos))) fun _ ctlBytes _ =>
    .done 2 (ctlBytes, ())

namespace HeaderIE

def isTermination : HeaderIE → Bool
  | .undissected _ _ => false
  | .termination1 => true
  | .termination2 => true

def encode : HeaderIE → Encoder Unit
  | .undissected elementId content => encodeElement 0x7f 7 elementId content
  | .termination1 => encodeTermination 7 0x7e
  | .termination2 => encodeTermination 7 0x7f

def decode (buf : List Byte) : SResult HeaderIE :=
  decTry buf 0 decodeU16 fun off ieCtlBe =>
    let ieCtl := be16 ieCtlBe
    if ieCtl &&& 0x8000 = 0 then
      let contentLen := (ieCtl &&& 0x7f).toNat
      let elementId := (ieCtl >>> 7).setWidth 8
      if buf.length < off + contentLen then
        .needed (off + contentLen)
      else
        let content := (buf.drop off).take contentLen
        .done (off + contentLen) (if elementId = 0x7e then .termination1
          else if elementId = 0x7f then .termination2
          else .undissected elementId content)
    else
      .error

end HeaderIE

inductive PayloadIE where
  | undissected (groupId : Byte) (content : List Byte)
  | termination
  deriving DecidableEq, Repr

namespace PayloadIE

def isTermination : PayloadIE → Bool
  | .undissected _ _ => false
  | .termination => true

def encode : PayloadIE → Encoder Unit
  | .undissected groupId content =>
    encodeElement 0x7ff 11 (groupId &&& 0xf) content
  | .termination => encodeTermination 11 (0xf &&& 0xf)

def decode (buf : List Byte) : SResult PayloadIE :=
  decTry buf 0 decodeU16 fun off ieCtlBe =>
    let ieCtl := be16 ieCtlBe
    if ieCtl &&& 0x8000 ≠ 0 then
      let contentLen := (ieCtl &&& 0x7ff).toNat
      let elementId := (ieCtl >>> 11).setWidth 8 &&& 0xf
      if buf.length < off + contentLen then
        .needed (off + contentLen)
      else
        let content := (buf.drop off).take contentLen
        .done (off + contentLen) (if elementId = 0xf then .termination
          else .undissected elementId content)
    else
      .error

end PayloadIE

def maxHeaderIes : ℕ := 5

def maxPayloadIes : ℕ := 5

/-! ## Headers -/

structure Header where
  frameType : FrameType
  framePending : Bool
  ackRequested : Bool
  version : FrameVersion
  seq : Option Byte
  dstPan : Option PanID
  dstAddr : Option MacAddress
  srcPan : Option PanID
  srcAddr : Option MacAddress
  security : Option Security
  headerIes : Vector HeaderIE maxHeaderIes
  headerIesLen : ℕ
  payloadIes : Vector PayloadIE maxPayloadIes
  payloadIesLen : ℕ
  deriving DecidableEq, Repr

def encodeIes {σ : Type*} (isTermination : σ → Bool) (encode : σ → Encoder Unit) :
    List σ → Encoder Unit
  | [] => fun _ => .done 0 ([], ())
  | ie :: rest => fun room =>
    if isTermination ie then
      .error
    else
      encTry room 0 (encode ie) fun off ieBytes _ =>
        encTry room off (encodeIes isTermination encode rest)
          fun off restBytes _ => .done off (ieBytes ++ restBytes, ())

namespace Header

/-- Whether the source PAN is left out, and the PAN id compression flag; `none`
if the combination of addresses is not valid. -/
def compression (h : Header) : Option (Bool × Bool) :=
  match h.version with
  | .v2015 =>
    match h.dstAddr, h.srcAddr with
    | none, none =>
      if h.srcPan.isNone then some (false, h.dstPan.isSome) else none
    | some _, none =>
      if h.srcPan.isNone then some (false, h.dstPan.isNone) else none
    | none, some _ =>
      if h.dstPan.isNone then some (false, h.srcPan.isNone) else none
    | some _, some _ =>
      match h.dstPan, h.srcPan with
      | some dstPan, some srcPan =>
        some (dstPan = srcPan, dstPan = srcPan)
      | _, _ => none
  | .v2003 | .v2006 =>
    if h.dstAddr.isSome = h.dstPan.isSome ∧ h.srcAddr.isSome = h.srcPan.isSome
    then
      match h.dstPan, h.srcPan with
      | some dstPan, some srcPan => some (dstPan = srcPan, dstPan = srcPan)
      | _, _ => some (false, false)
    else
      none

def encodePan (pan : PanID) : Encoder Unit := encodeU16 (be16 pan)

def encodeAddressing (h : Header) : Encoder Bool := fun room =>
  match h.compression with
  | none => .error
  | some (dropSrcPan, panIdCompression) =>
    encTry room 0 (encodeOption encodePan h.dstPan) fun off dstPanBytes _ =>
      encTry room off (encodeOption MacAddress.encode h.dstAddr) fun off dstBytes _ =>
          encTry room off (encodeOption encodePan (if dropSrcPan then none else h.srcPan))
            fun off srcPanBytes _ =>
              encTry room off (encodeOption MacAddress.encode h.srcAddr) fun off srcBytes _ =>
                  .done off (dstPanBytes ++ dstBytes ++ srcPanBytes ++ srcBytes, panIdCompression)

def fcf (h : Header) (panIdCompression : Bool) : BitVec 16 :=
  let iePresent := h.headerIesLen ≠ 0 ∨ h.payloadIesLen ≠ 0
  let fcf := h.frameType.toU16
  let fcf := setFlag h.security.isSome 0x0008 fcf
  let fcf := setFlag h.framePending 0x0010 fcf
  let fcf := setFlag h.ackRequested 0x0020 fcf
  let fcf := setFlag panIdCompression 0x0040 fcf
  let fcf := setFlag h.seq.isNone 0x0100 fcf
  let fcf := setFlag iePresent 0x0200 fcf
  let fcf := fcf ||| (AddressMode.ofAddress h.dstAddr).toU16 <<< 10
  let fcf := fcf ||| h.version.toU16
  fcf ||| (AddressMode.ofAddress h.srcAddr).toU16 <<< 14

def headerTermination (h : Header) (hasPayload : Bool) : Option HeaderIE :=
  if h.payloadIesLen ≠ 0 then some .termination1
  else if h.headerIesLen ≠ 0 ∧ hasPayload then some .termination2
  else none

def payloadTermination (h : Header) (hasPayload : Bool) : Option PayloadIE :=
  if h.payloadIesLen ≠ 0 ∧ hasPayload then some .termination else none

/-- The output is the offset of the MAC payload, which begins with the payload
elements. -/
def encode (h : Header) (hasPayload : Bool) : Encoder ℕ := fun room =>
  if room < 2 then
    .needed 2
  else if h.version ≠ .v2015 ∧ h.seq.isNone then
    .error
  else
    encTry room 2 (encodeOption encodeU8 h.seq) fun off seqBytes _ =>
      encTry room off h.encodeAddressing fun off addrBytes panIdCompression =>
        encTry room off (encodeOption Security.encode h.security) fun off securityBytes _ =>
            if h.headerIesLen ≤ maxHeaderIes ∧ h.payloadIesLen ≤ maxPayloadIes
            then
              encTry room off (encodeIes HeaderIE.isTermination HeaderIE.encode
                  (h.headerIes.toList.take h.headerIesLen)) fun off headerIeBytes _ =>
              encTry room off (encodeOption HeaderIE.encode (h.headerTermination hasPayload))
                fun macPayloadOff headerEndBytes _ =>
              encTry room macPayloadOff (encodeIes PayloadIE.isTermination PayloadIE.encode
                    (h.payloadIes.toList.take h.payloadIesLen)) fun off payloadIeBytes _ =>
              encTry room off (encodeOption PayloadIE.encode (h.payloadTermination hasPayload))
                fun off payloadEndBytes _ =>
              encTry room 0 (encodeU16 (be16 (h.fcf panIdCompression))) fun _ fcfBytes _ =>
              .done off (fcfBytes ++ seqBytes ++ addrBytes ++ securityBytes ++
                headerIeBytes ++ headerEndBytes ++ payloadIeBytes ++ payloadEndBytes, macPayloadOff)
            else
              .error

end Header

/-! ## Decoding -/

structure Addressing where
  dstPan : Option PanID
  dstAddr : Option MacAddress
  srcPan : Option PanID
  srcAddr : Option MacAddress
  deriving DecidableEq, Repr

/-- Whether the destination PAN and the source PAN are present, and whether the
source PAN has been left out because it is the destination PAN. -/
def pansPresent (version : FrameVersion) (dstMode srcMode : AddressMode)
    (panIdCompression : Bool) : Bool × Bool × Bool :=
  let dstPresent : Bool := dstMode ≠ .notPresent
  let srcPresent : Bool := srcMode ≠ .notPresent
  match version with
  | .v2015 =>
    match dstPresent, srcPresent with
    | false, false => (panIdCompression, false, false)
    | true, false => (!panIdCompression, false, false)
    | false, true => (false, !panIdCompression, false)
    | true, true => (true, !panIdCompression, panIdCompression)
  | .v2003 | .v2006 =>
    (dstPresent, srcPresent && !panIdCompression, panIdCompression)

def decodePan (present : Bool) (buf : List Byte) : SResult (Option PanID) :=
  if present then
    decTry buf 0 decodeU16 fun off panBe => .done off (some (be16 panBe))
  else
    .done 0 none

def decodeAddressing (version : FrameVersion) (dstMode srcMode : AddressMode)
    (panIdCompression : Bool) (buf : List Byte) : SResult Addressing :=
  let (dstPanPresent, srcPanPresent, srcPanDropped) :=
    pansPresent version dstMode srcMode panIdCompression
  decTry buf 0 (decodePan dstPanPresent) fun off dstPan =>
    decTry buf off (MacAddress.decode dstMode) fun off dstAddr =>
      decTry buf off (decodePan srcPanPresent) fun off srcPan =>
        -- A source PAN that was left out is the destination PAN.
        if !srcPanPresent && srcPanDropped && dstPan.isNone then
          .error
        else
          let srcPan := if !srcPanPresent && srcPanDropped then dstPan else srcPan
          decTry buf off (MacAddress.decode srcMode) fun off srcAddr =>
            .done off ⟨dstPan, dstAddr, srcPan, srcAddr⟩

/-- The loop over the header elements, with those found so far; the output says
whether payload elements follow. It ends after `maxHeaderIes` rounds. -/
def decodeHeaderIes (buf : List Byte) : ℕ → ℕ → Vector HeaderIE maxHeaderIes → ℕ →
      SResult (Vector HeaderIE maxHeaderIes × ℕ × Bool)
  | 0, _, _, _ => .panicked
  | fuel + 1, off, ies, len =>
    decTry buf off HeaderIE.decode fun off ie =>
      match ie with
      | .termination1 => .done off (ies, len, true)
      | .termination2 => .done off (ies, len, false)
      | ie =>
        if len + 1 < maxHeaderIes then
          decodeHeaderIes buf fuel off (ies.setIfInBounds len ie) (len + 1)
        else
          .error

def decodePayloadIes (buf : List Byte) : ℕ → ℕ → Vector PayloadIE maxPayloadIes → ℕ →
      SResult (Vector PayloadIE maxPayloadIes × ℕ)
  | 0, _, _, _ => .panicked
  | fuel + 1, off, ies, len =>
    decTry buf off PayloadIE.decode fun off ie =>
      match ie with
      | .termination => .done off (ies, len)
      | ie =>
        if len + 1 < maxPayloadIes then
          decodePayloadIes buf fuel off (ies.setIfInBounds len ie) (len + 1)
        else
          .error

def decodeSeq (suppressed : Bool) (buf : List Byte) : SResult (Option Byte) :=
  if suppressed then
    .done 0 none
  else
    decTry buf 0 decodeU8 fun off seq => .done off (some seq)

def decodeSecurity (enabled : Bool) (buf : List Byte) : SResult (Option Security) :=
  if enabled then
    decTry buf 0 Security.decode fun off security => .done off (some security)
  else
    .done 0 none

namespace Header

def noHeaderIes : Vector HeaderIE maxHeaderIes :=
  Vector.replicate maxHeaderIes .termination1

def noPayloadIes : Vector PayloadIE maxPayloadIes :=
  Vector.replicate maxPayloadIes .termination

variable (buf : List Byte)

def decodeHeaderPart (off : ℕ) (iePresent : Bool) :
    SResult (Vector HeaderIE maxHeaderIes × ℕ × Bool) :=
  if iePresent then
    decodeHeaderIes buf maxHeaderIes off noHeaderIes 0
  else
    .done off (noHeaderIes, 0, false)

def decodePayloadPart (off : ℕ) (parsed : Bool) : SResult (Vector PayloadIE maxPayloadIes × ℕ) :=
  if parsed then
    decodePayloadIes buf maxPayloadIes off noPayloadIes 0
  else
    .done off (noPayloadIes, 0)

/-- The information elements and the end of `decode`, from an offset on; what
comes before them is in the header that is given. -/
def decodeElements (off : ℕ) (iePresent unencrypted : Bool) (h : Header) : SResult (Header × ℕ) :=
  match decodeHeaderPart buf off iePresent with
  | .done macPayloadOff (headerIes, headerIesLen, hasPayloadIes) =>
    match decodePayloadPart buf macPayloadOff (hasPayloadIes && unencrypted) with
    | .done off (payloadIes, payloadIesLen) =>
      .done off
        ({ h with
            headerIes := headerIes
            headerIesLen := headerIesLen
            payloadIes := payloadIes
            payloadIesLen := payloadIesLen },
          macPayloadOff)
    | .needed bytes => .needed bytes
    | .error => .error
    | .panicked => .panicked
  | .needed bytes => .needed bytes
  | .error => .error
  | .panicked => .panicked

def decode (unsecured : Bool) : SResult (Header × ℕ) :=
  decTry buf 0 decodeU16 fun off fcfBe =>
    let fcf := be16 fcfBe
    match FrameType.fromFcf fcf, AddressMode.fromMode ((fcf >>> 10) &&& 0b11),
        FrameVersion.fromFcf fcf, AddressMode.fromMode ((fcf >>> 14) &&& 0b11) with
    | some frameType, some dstMode, some version, some srcMode =>
      let securityEnabled : Bool := fcf &&& 0x0008 ≠ 0
      let panIdCompression : Bool := fcf &&& 0x0040 ≠ 0
      decTry buf off (decodeSeq (fcf &&& 0x0100 ≠ 0)) fun off seq =>
        decTry buf off (decodeAddressing version dstMode srcMode panIdCompression)
          fun off addressing =>
            decTry buf off (decodeSecurity securityEnabled) fun off security =>
                decodeElements buf off (fcf &&& 0x0200 ≠ 0) (unsecured || !securityEnabled)
                  { frameType
                    framePending := fcf &&& 0x0010 ≠ 0
                    ackRequested := fcf &&& 0x0020 ≠ 0
                    version
                    seq
                    dstPan := addressing.dstPan
                    dstAddr := addressing.dstAddr
                    srcPan := addressing.srcPan
                    srcAddr := addressing.srcAddr
                    security
                    headerIes := noHeaderIes
                    headerIesLen := 0
                    payloadIes := noPayloadIes
                    payloadIesLen := 0 }
    | _, _, _, _ => .error

end Header

end TockKernel.Net

import TockKernel.TicKV.AnyFlash

/-!
# TicKV and its flash controller

The operations of `libraries/tickv/src/tickv.rs` once more, now with a flash
controller that may answer anything: that it failed, or that it will have the
data later. The controller stands for the flash as well, so that its answers
hold what is read. The four operations on a key differ only in how they look at
the bytes of a region.
-/

namespace TockKernel.TicKV

/-! ## The state -/

inductive InitState where
  | getKeyReadRegion (region : ℕ)
  | eraseRegion (region : ℕ)
  | eraseComplete
  | appendKeyReadRegion (region : ℕ)
  deriving DecidableEq

inductive RubbishState where
  | readRegion (region flashFreed : ℕ)
  | eraseRegion (region flashFreed : ℕ)
  deriving DecidableEq

inductive State where
  | none
  | init (state : InitState)
  | appendKey (region : ℕ)
  | getKey (region : ℕ)
  | invalidateKey (region : ℕ)
  | zeroiseKey (region : ℕ)
  | garbageCollect (state : RubbishState)
  deriving DecidableEq

variable (S : ℕ)

/-- The contents of a buffer for a region. -/
abbrev RegionData := Fin S → Byte

/-- The answer of the controller to one call, with what the buffer holds then if
the call was one of `read_region`. -/
structure Reply (S : ℕ) where
  error : Option ErrorCode
  data : RegionData S

structure Device (S : ℕ) where
  flashSize : ℕ
  state : State
  readBuffer : Option (RegionData S)
  /-- What the controller will answer, call by call. -/
  replies : ℕ → Reply S

namespace Device

variable {S : ℕ} (d : Device S)

def numRegion : ℕ := d.flashSize / S

def getRegion (hash : BitVec 64) : Except Abort ℕ :=
  if hash = 0xFFFFFFFFFFFFFFFF ∨ hash = 0 then .error .panic
  else if d.numRegion = 0 then .error .panic
  else .ok (hash.toNat % 0x10000 % d.numRegion)

def answered : Device S :=
  { d with replies := fun i => d.replies (i + 1) }

def taken : Device S := { d with readBuffer := none }

def putBack (data : RegionData S) : Device S :=
  { d with readBuffer := some data }

def setState (state : State) : Device S :=
  { d with state := state }

def await (waiting : ℕ → State) : ErrorCode → Device S
  | .readNotReady region => d.setState (waiting region)
  | _ => d

/-- The region, in the buffer that has been taken. An operation that had to wait
for the region finds it there. -/
def fetch (waiting : ℕ → State) (resumed : Bool)
    (buffer : RegionData S) : Except (ErrorCode × Device S) (RegionData S × Device S) :=
  if resumed then
    .ok (buffer, d.taken)
  else
    match (d.replies 0).error with
    | none => .ok ((d.replies 0).data, d.taken.answered)
    | some e => .error (e, (d.taken.answered.putBack (d.replies 0).data).await waiting e)

end Device

/-! ## Operations on a key -/

/-- What an operation on a key does with the bytes of a region. -/
inductive Verdict (ρ : Type) where
  /-- It goes on to the next region, or fails if there is none. -/
  | next (e : ErrorCode)
  /-- It returns, and puts the buffer back or does not. -/
  | finished (result : ρ) (putsBack : Bool)
  /-- It changes the buffer and writes it to the flash. -/
  | write (offset : ℕ) (bytes : List Byte)
  | aborts (abort : Abort)

structure KeyOperation (ρ : Type) where
  /-- The region it has been waiting for, in the states it may be called in. -/
  resumes : State → Except Abort (Option ℕ)
  waiting : ℕ → State
  examine : List Byte → Verdict ρ
  fail : ErrorCode → ρ
  changed : SuccessCode → ρ

def overwrite {S : ℕ} (data : RegionData S) (offset : ℕ) (bytes : List Byte) :
    RegionData S := fun i =>
  if offset ≤ i then bytes.getD (i - offset) (data i) else data i

def KeyOperation.written {ρ : Type} (k : KeyOperation ρ) : Option ErrorCode → ρ
  | none => k.changed .written
  | some (.writeNotReady _) => k.changed .queued
  | some e => k.fail e

namespace Device

variable {S : ℕ} {ρ : Type}

def keyLoop (k : KeyOperation ρ) (region : ℕ) : ℕ → ℤ → Device S → Except Abort (ρ × Device S)
  | 0, _, _ => .error .diverges
  | fuel + 1, regionOffset, d =>
    match k.resumes d.state, d.readBuffer with
    | .error abort, _ => .error abort
    | .ok _, none => .error .panic
    | .ok resumed, some buffer =>
      let newRegion := resumed.getD (region + regionOffset).toNat
      match d.fetch k.waiting resumed.isSome buffer with
      | .error (e, d) => .ok (k.fail e, d)
      | .ok (data, d) =>
        match k.examine (List.ofFn data) with
        | .next e =>
          match incrementLoop d.numRegion region (2 * d.numRegion + 2)
              (newRegion - region) false false with
          | some o => keyLoop k region fuel o ((d.putBack data).setState .none)
          | none => .ok (k.fail e, d.putBack data)
        | .finished result putsBack =>
          .ok (result, if putsBack then d.putBack data else d)
        | .write offset bytes =>
          .ok (k.written (d.replies 0).error, d.answered.putBack (overwrite data offset bytes))
        | .aborts abort => .error abort

def runKey (d : Device S) (k : KeyOperation ρ) (hash : BitVec 64) : Except Abort (ρ × Device S) :=
  match d.getRegion hash with
  | .error abort => .error abort
  | .ok region => keyLoop k region (2 * d.numRegion + 1) 0 d

end Device

/-! ## The bytes of a region -/

variable (profile : Arithmetic.Profile)

def valueLength (length : ℕ) : Except Abort ℕ :=
  match Arithmetic.sub 32 profile length headerLength with
  | .error _ => .error .panic
  | .ok rest =>
    match Arithmetic.sub 32 profile rest checkSumLen with
    | .error _ => .error .panic
    | .ok length => .ok length

/-- `get_key` once the key has been found: the result, what the buffer of the
caller holds, and whether the read buffer is put back. -/
def readValue (buf regionData : List Byte) (offset length valueLength : ℕ) :
    (Except ErrorCode (SuccessCode × ℕ) × List Byte) × Bool :=
  if regionData.length < offset + headerLength then
    ((.error .objectTooLarge, buf), false)
  else
    let header := (regionData.drop offset).take headerLength
    if buf.length < valueLength then
      let copied := (regionData.drop (offset + headerLength)).take buf.length
      ((.error (.bufferTooSmall valueLength), copied ++ buf.drop copied.length),
        decide (copied.length = buf.length))
    else
      let copied := (regionData.drop (offset + headerLength)).take valueLength
      let buf := copied ++ buf.drop copied.length
      if copied.length < valueLength then
        ((.error .corruptData, buf), false)
      else
        let checkSum := Crc32.finalise (Crc32.update (Crc32.update 0 header) copied)
        if regionData.length < offset + length then
          ((.error .invalidCheckSum, buf), false)
        else if (regionData.drop (offset + length - checkSumLen)).take
            checkSumLen ≠ checkSumBytes checkSum then
          ((.error .invalidCheckSum, buf), true)
        else
          ((.ok (.complete, valueLength), buf), true)

def getVerdict (hash : BitVec 64)
    (buf regionData : List Byte) : Verdict (Except ErrorCode (SuccessCode × ℕ) × List Byte) :=
  match findKeyOffset S hash regionData with
  | .ok (offset, length) =>
    match valueLength profile length with
    | .error abort => .aborts abort
    | .ok valueLength =>
      let (result, putsBack) := readValue buf regionData offset length valueLength
      .finished result putsBack
  | .error (true, e) => .next e
  | .error (false, e) => .finished (.error e, buf) true

def invalidateVerdict (hash : BitVec 64) (regionData : List Byte) :
    Verdict (Except ErrorCode SuccessCode) :=
  match findKeyOffset S hash regionData with
  | .ok (offset, _) =>
    match regionData[offset + lenOffset]? with
    | none => .finished (.error .corruptData) false
    | some len0 => .write (offset + lenOffset) [len0 &&& ~~~0x80]
  | .error (true, e) => .next e
  | .error (false, e) => .finished (.error e) true

def zeroiseVerdict (hash : BitVec 64) (regionData : List Byte) :
    Verdict (Except ErrorCode SuccessCode) :=
  match findKeyOffset S hash regionData with
  | .ok (offset, length) =>
    match regionData[offset + lenOffset]? with
    | none => .finished (.error .corruptData) false
    | some len0 =>
      if regionData.length < offset + length + headerLength then
        .finished (.error .regionFull) false
      else
        let header := ((regionData.set (offset + lenOffset)
          (len0 &&& ~~~0x80)).drop offset).take headerLength
        .write offset (header ++ List.replicate length 0)
  | .error (true, e) => .next e
  | .error (false, e) => .finished (.error e) true

def appendVerdict (hash : BitVec 64) (value regionData : List Byte) :
    Verdict (Except ErrorCode SuccessCode) :=
  match findKeyOffset S hash regionData with
  | .ok _ => .finished (.error .keyAlreadyExists) true
  | .error _ =>
    match appendScan S (headerLength + value.length) regionData (S + 1) 0 with
    | .nextRegion => .next .flashFull
    | .failed e keepsBuffer => .finished (.error e) keepsBuffer
    | .diverges => .aborts .diverges
    | .free offset =>
      if S < offset + (headerLength + value.length) + checkSumLen then
        .finished (.error .objectTooLarge) false
      else
        .write offset (objectBytes hash value)

/-! ## The operations -/

def getOperation (hash : BitVec 64) (buf : List Byte) :
    KeyOperation (Except ErrorCode (SuccessCode × ℕ) × List Byte) where
  resumes
    | .none => .ok none
    | .init (.getKeyReadRegion region) => .ok (some region)
    | .init _ => .ok none
    | .getKey region => .ok (some region)
    | _ => .error .panic
  waiting := .getKey
  examine := getVerdict S profile hash buf
  fail e := (.error e, buf)
  -- `get_key` does not write
  changed code := (.ok (code, 0), buf)

def invalidateOperation (hash : BitVec 64) : KeyOperation (Except ErrorCode SuccessCode) where
  resumes
    | .none => .ok none
    | .invalidateKey region => .ok (some region)
    | _ => .error .panic
  waiting := .invalidateKey
  examine := invalidateVerdict S hash
  fail := .error
  changed := .ok

def zeroiseOperation (hash : BitVec 64) : KeyOperation (Except ErrorCode SuccessCode) where
  resumes
    | .none => .ok none
    | .zeroiseKey region => .ok (some region)
    | _ => .error .panic
  waiting := .zeroiseKey
  examine := zeroiseVerdict S hash
  fail := .error
  changed := .ok

def appendOperation (hash : BitVec 64) (value : List Byte) :
    KeyOperation (Except ErrorCode SuccessCode) where
  resumes
    | .none => .ok none
    | .init (.appendKeyReadRegion region) => .ok (some region)
    | .init _ => .ok none
    | .appendKey region => .ok (some region)
    | _ => .error .panic
  waiting := .appendKey
  examine := appendVerdict S hash value
  fail := .error
  changed := .ok

namespace Device

variable {S : ℕ} (d : Device S)

variable (profile : Arithmetic.Profile)

def getKey (hash : BitVec 64) (buf : List Byte) :
    Except Abort ((Except ErrorCode (SuccessCode × ℕ) × List Byte) × Device S) :=
  d.runKey (getOperation S profile hash buf) hash

def invalidateKey (hash : BitVec 64) : Except Abort (Except ErrorCode SuccessCode × Device S) :=
  d.runKey (invalidateOperation S hash) hash

def zeroiseKey (hash : BitVec 64) : Except Abort (Except ErrorCode SuccessCode × Device S) :=
  d.runKey (zeroiseOperation S hash) hash

def appendKey (hash : BitVec 64) (value : List Byte) :
    Except Abort (Except ErrorCode SuccessCode × Device S) :=
  match d.getRegion hash with
  | .error abort => .error abort
  | .ok _ =>
    let objectLength := headerLength + value.length + checkSumLen
    if objectLength > 0xFFF then
      .ok (.error .objectTooLarge, d)
    else if objectLength = 0xFFF then
      .error .panic
    else
      d.runKey (appendOperation S hash value) hash

/-- The regions are erased one after the other, until the controller reports an
error. -/
def eraseRegions (d : Device S) : List ℕ → Except (ErrorCode × ℕ × Device S) (Device S)
  | [] => .ok d
  | region :: regions =>
    match (d.replies 0).error with
    | none => d.answered.eraseRegions regions
    | some e => .error (e, region, d.answered)

variable (mainKey : BitVec 64)

def saveMainKey : Except Abort (Except ErrorCode SuccessCode × Device S) :=
  match d.appendKey mainKey [] with
  | .error abort => .error abort
  | .ok (.ok ret, d) => .ok (.ok ret, d.setState .none)
  | .ok (.error (.readNotReady region), d) =>
    .ok (.error (.readNotReady region), d.setState (.init (.appendKeyReadRegion region)))
  | .ok (.error (.writeNotReady _), d) => .ok (.ok .queued, d.setState .none)
  | .ok (.error e, d) => .ok (.error e, d)

def eraseFrom (start : ℕ) : Except Abort (Except ErrorCode SuccessCode × Device S) :=
  match d.eraseRegions ((List.range d.numRegion).drop start) with
  | .error (e, region, d) => .ok (.error e, d.setState (.init (.eraseRegion region)))
  | .ok d => (d.setState (.init .eraseComplete)).saveMainKey mainKey

/-- `initialise` when the main key has not been found. -/
def setUp : Except Abort (Except ErrorCode SuccessCode × Device S) :=
  match d.state with
  | .none | .init (.getKeyReadRegion _) => d.eraseFrom mainKey 0
  | .init (.eraseRegion region) => d.eraseFrom mainKey (region + 1)
  | _ => d.saveMainKey mainKey

def findMainKey : Except Abort (Except ErrorCode SuccessCode × Device S) :=
  match d.getKey profile mainKey [] with
  | .error abort => .error abort
  | .ok ((.ok (ret, _), _), d) => .ok (.ok ret, d)
  | .ok ((.error (.readNotReady region), _), d) =>
    .ok (.error (.readNotReady region), d.setState (.init (.getKeyReadRegion region)))
  | .ok ((.error _, _), d) => d.setUp mainKey

def initialise : Except Abort (Except ErrorCode SuccessCode × Device S) :=
  match d.state with
  | .none | .init (.getKeyReadRegion _) => d.findMainKey profile mainKey
  | .init _ => d.setUp mainKey
  | _ => .error .panic

def garbageCollectRegion (region flashFreed : ℕ) : Except Abort (Except ErrorCode ℕ × Device S) :=
  match d.readBuffer with
  | none => .error .panic
  | some buffer =>
    match d.fetch (fun region => .garbageCollect (.readRegion region flashFreed))
        (d.state = .garbageCollect (.readRegion region flashFreed)) buffer with
    | .error (e, d) => .ok (.error e, d)
    | .ok (data, d) =>
      match collectScan S (List.ofFn data) (S + 1) 0 false with
      | .keep => .ok (.ok 0, d.putBack data)
      | .failed e keepsBuffer =>
        .ok (.error e, if keepsBuffer then d.putBack data else d)
      | .diverges => .error .diverges
      | .erase =>
        match (d.replies 0).error with
        | none => .ok (.ok S, d.answered.putBack data)
        | some (.eraseNotReady region) =>
          .ok (.error (.eraseNotReady region), (d.answered.putBack data).setState
            (.garbageCollect (.eraseRegion region (flashFreed + S))))
        | some e => .ok (.error e, d.answered.putBack data)

def collectLoop : List ℕ → ℕ → Device S → Except Abort (Except ErrorCode ℕ × Device S)
  | [], flashFreed, d => .ok (.ok flashFreed, d)
  | region :: regions, flashFreed, d =>
    match d.garbageCollectRegion region flashFreed with
    | .error abort => .error abort
    | .ok (.ok freed, d) => collectLoop regions (flashFreed + freed) d
    | .ok (.error e, d) => .ok (.error e, d)

def garbageCollect (d : Device S) : Except Abort (Except ErrorCode ℕ × Device S) :=
  if S = 0 then
    .error .panic
  else
    match d.state with
    | .none => collectLoop (List.range d.numRegion) 0 d
    | .garbageCollect (.readRegion region freed) =>
      collectLoop ((List.range d.numRegion).drop region) freed d
    | .garbageCollect (.eraseRegion region freed) =>
      collectLoop ((List.range d.numRegion).drop (region + 1)) freed d
    | _ => .error .panic

def after : Operation → Except Abort (Device S)
  | .initialise mainKey => (d.initialise profile mainKey).map Prod.snd
  | .append hash value => (d.appendKey hash value).map Prod.snd
  | .get hash buf => (d.getKey profile hash buf).map Prod.snd
  | .invalidate hash => (d.invalidateKey hash).map Prod.snd
  | .zeroise hash => (d.zeroiseKey hash).map Prod.snd
  | .garbageCollect => d.garbageCollect.map Prod.snd

end Device

end TockKernel.TicKV

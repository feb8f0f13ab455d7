import TockKernel.Bytes

/-!
# The TicKV key-value store

A model of `libraries/tickv/src/tickv.rs`, byte by byte, over a flash that
answers at once. What can go wrong is kept: the panics, the errors, the loop
over entries that never ends on an entry of length 0, and the early returns that
do not put the read buffer back into its cell. `S` is the size of a region.
Loops are written with a bound on the number of iterations.
-/

namespace TockKernel

/-! ## The checksum -/

namespace Crc32

def polySum (poly value : BitVec 32) : BitVec 32 :=
  (value <<< 1) ^^^ ((value >>> 31) * poly)

/-- An entry of `CRC_TABLE`. -/
def crc32 (poly : BitVec 32) (byte : Byte) : BitVec 32 :=
  (polySum poly)^[8] (byte.setWidth 32 <<< 24)

def tableEntry (index : BitVec 32) : BitVec 32 :=
  crc32 0x04c11db7 (index.setWidth 8)

def update (crc : BitVec 32) (bytes : List Byte) : BitVec 32 :=
  bytes.foldl (fun crc byte =>
    tableEntry (byte.setWidth 32 ^^^ (crc >>> 24)) ^^^ (crc <<< 8)) crc

def finalise (crc : BitVec 32) : BitVec 32 :=
  crc ^^^ 0xffffffff

end Crc32

/-! ## Objects -/

/-- The store, with the flash and whether the read buffer is in its cell. -/
structure TicKV (S : ℕ) where
  flash : ℕ → Byte
  flashSize : ℕ
  readBuffer : Bool

namespace TicKV

inductive ErrorCode where
  | unsupportedVersion
  | corruptData
  | invalidCheckSum
  | keyNotFound
  | keyAlreadyExists
  | regionFull
  | flashFull
  | readFail
  | writeFail
  | eraseFail
  | objectTooLarge
  | bufferTooSmall (length : ℕ)
  | readNotReady (region : ℕ)
  | writeNotReady (region : ℕ)
  | eraseNotReady (region : ℕ)
  deriving DecidableEq, Repr

inductive SuccessCode where
  | complete
  | written
  | queued
  deriving DecidableEq, Repr

/-- Why an operation does not return. -/
inductive Abort where
  | panic
  | diverges
  deriving DecidableEq, Repr

def version : Byte := 1
def flagsValid : Byte := 8

def versionOffset : ℕ := 0
def lenOffset : ℕ := 1
def hashOffset : ℕ := 3
def headerLength : ℕ := hashOffset + 8
def checkSumLen : ℕ := 4

def hashBytes (hash : BitVec 64) : List Byte :=
  [7, 6, 5, 4, 3, 2, 1, 0].map fun i => (hash >>> (8 * i)).setWidth 8

def lenBytes (flags : Byte) (len : BitVec 16) : List Byte :=
  [((len >>> 8).setWidth 8 &&& 0x0F) ||| ((flags <<< 4) &&& 0xF0), len.setWidth 8]

def headerBytes (hash : BitVec 64) (len : BitVec 16) : List Byte :=
  version :: lenBytes flagsValid len ++ hashBytes hash

/-- `to_ne_bytes`, on a little-endian machine. -/
def checkSumBytes (checkSum : BitVec 32) : List Byte :=
  [0, 1, 2, 3].map fun i => (checkSum >>> (8 * i)).setWidth 8

def totalLength (len0 len1 : Byte) : ℕ :=
  (((len0.setWidth 16 &&& ~~~0xF0) <<< 8) ||| len1.setWidth 16 : BitVec 16).toNat

variable {S : ℕ} (t : TicKV S)

def readRegion (region : ℕ) : List Byte :=
  (List.range S).map fun i => t.flash (S * region + i)

def write (address : ℕ) (buf : List Byte) : TicKV S :=
  { t with flash := fun a =>
      if address ≤ a then buf.getD (a - address) (t.flash a) else t.flash a }

def eraseRegion (region : ℕ) : TicKV S :=
  t.write (S * region) (List.replicate S 0xFF)

/-! ## Regions -/

def numRegion : ℕ := t.flashSize / S

def getRegion (hash : BitVec 64) : Except Abort ℕ :=
  if hash = 0xFFFFFFFFFFFFFFFF ∨ hash = 0 then .error .panic
  -- The remainder by the number of regions.
  else if t.numRegion = 0 then .error .panic
  else .ok (hash.toNat % 0x10000 % t.numRegion)

def incrementLoop (numRegion region : ℕ) : ℕ → ℤ → Bool → Bool → Option ℤ
  | 0, _, _, _ => none
  | fuel + 1, offset, tooBig, tooSmall =>
    if !tooBig || !tooSmall then
      let newOffset :=
        if offset = 0 then 1 else if 0 < offset then -offset else -offset + 1
      if region + newOffset > (numRegion : ℤ) - 1 then
        incrementLoop numRegion region fuel newOffset true tooSmall
      else if region + newOffset < 0 then
        incrementLoop numRegion region fuel newOffset tooBig true
      else
        some newOffset
    else
      none

def incrementRegionOffset (region : ℕ) (regionOffset : ℤ) : Option ℤ :=
  incrementLoop t.numRegion region (2 * t.numRegion + 2) regionOffset false false

/-! ## Finding a key -/

def byteAt {ε : Type} (regionData : List Byte) (i : ℕ) (error : ε) : Except ε Byte :=
  match regionData[i]? with
  | some byte => .ok byte
  | none => .error error

/-- Whether the bytes from `i` on differ from the expected ones. -/
def differsAt {ε : Type} (regionData : List Byte) (error : ε) : ℕ → List Byte → Except ε Bool
  | _, [] => .ok false
  | i, expected :: rest => do
      let byte ← byteAt regionData i error
      if byte ≠ expected then
        return true
      else
        differsAt regionData error (i + 1) rest

def findLoop (S : ℕ) (hash : BitVec 64) (regionData : List Byte) :
    ℕ → ℕ → Bool → Except (Bool × ErrorCode) (ℕ × ℕ)
  -- Entries are at least one byte long, so that `S` iterations are enough.
  | 0, _, _ => .error (false, .keyNotFound)
  | fuel + 1, offset, empty =>
    if offset + headerLength ≥ S then
      -- The end of the region.
      .error (false, .keyNotFound)
    else do
      let v ← byteAt regionData (offset + versionOffset) (false, .keyNotFound)
      if v = 0xFF then
        .error (!empty, .keyNotFound)
      else if v ≠ version then
        .error (false, .unsupportedVersion)
      else
        let len0 ← byteAt regionData (offset + lenOffset) (false, .corruptData)
        let len1 ← byteAt regionData (offset + lenOffset + 1) (false, .corruptData)
        let length := totalLength len0 len1
        if length = 0 then
          .error (false, .keyNotFound)
        else if len0 &&& 0x80 ≠ 0x80 then
          -- The entry has been deleted.
          findLoop S hash regionData fuel (offset + length) false
        else if ← differsAt regionData (false, .corruptData)
            (offset + hashOffset) (hashBytes hash) then
          findLoop S hash regionData fuel (offset + length) false
        else
          return (offset, length)

/-- Where the key is and how long its entry is, or whether to look in the
neighbouring regions. -/
def findKeyOffset (S : ℕ) (hash : BitVec 64) (regionData : List Byte) :
    Except (Bool × ErrorCode) (ℕ × ℕ) :=
  findLoop S hash regionData (S + 1) 0 true

/-- The search that `get_key`, `invalidate_key` and `zeroise_key` share, with
the region, the offset and the length that it ends with. -/
def locateLoop (t : TicKV S) (hash : BitVec 64) (region : ℕ) :
    ℕ → ℤ → Except Abort (Except ErrorCode (ℕ × ℕ × ℕ))
  | 0, _ => .error .diverges
  | fuel + 1, regionOffset =>
    let newRegion := (region + regionOffset).toNat
    if !t.readBuffer then
      .error .panic
    else
      match findKeyOffset S hash (t.readRegion newRegion) with
      | .ok (offset, length) => .ok (.ok (newRegion, offset, length))
      | .error (cont, e) =>
        if cont then
          match t.incrementRegionOffset region (newRegion - region) with
          | some o => locateLoop t hash region fuel o
          | none => .ok (.error e)
        else
          .ok (.error e)

def locate (hash : BitVec 64) : Except Abort (Except ErrorCode (ℕ × ℕ × ℕ)) :=
  match t.getRegion hash with
  | .error abort => .error abort
  | .ok region => t.locateLoop hash region (2 * t.numRegion + 1) 0

/-! ## Operations -/

/-- An operation returns a result and a store, or does not return. -/
abbrev Result (S : ℕ) (α : Type) := Except Abort (α × TicKV S)

def loseBuffer : TicKV S := { t with readBuffer := false }

/-- `get_key` once the key has been found. The result comes with what the
caller's buffer holds then. -/
def getValue (buf regionData : List Byte) (offset length : ℕ) :
    Result S (Except ErrorCode (SuccessCode × ℕ) × List Byte) :=
  if regionData.length < offset + headerLength then
    .ok ((.error .objectTooLarge, buf), t.loseBuffer)
  else if length < headerLength + checkSumLen then
    .error .panic
  else
    let header := (regionData.drop offset).take headerLength
    let valueLength := length - headerLength - checkSumLen
    if buf.length < valueLength then
      let copied := (regionData.drop (offset + headerLength)).take buf.length
      .ok ((.error (.bufferTooSmall valueLength), copied ++ buf.drop copied.length),
        if copied.length < buf.length then t.loseBuffer else t)
    else
      let copied := (regionData.drop (offset + headerLength)).take valueLength
      let buf := copied ++ buf.drop copied.length
      if copied.length < valueLength then
        .ok ((.error .corruptData, buf), t.loseBuffer)
      else
        let checkSum := Crc32.finalise (Crc32.update (Crc32.update 0 header) copied)
        if regionData.length < offset + length then
          .ok ((.error .invalidCheckSum, buf), t.loseBuffer)
        else if (regionData.drop (offset + length - checkSumLen)).take
            checkSumLen ≠ checkSumBytes checkSum then
          .ok ((.error .invalidCheckSum, buf), t)
        else
          .ok ((.ok (.complete, valueLength), buf), t)

def getKey (hash : BitVec 64) (buf : List Byte) :
    Result S (Except ErrorCode (SuccessCode × ℕ) × List Byte) :=
  match t.locate hash with
  | .error abort => .error abort
  | .ok (.error e) => .ok ((.error e, buf), t)
  | .ok (.ok (region, offset, length)) =>
    t.getValue buf (t.readRegion region) offset length

def invalidateKey (hash : BitVec 64) : Result S (Except ErrorCode SuccessCode) :=
  match t.locate hash with
  | .error abort => .error abort
  | .ok (.error e) => .ok (.error e, t)
  | .ok (.ok (region, offset, _)) =>
    match (t.readRegion region)[offset + lenOffset]? with
    | none => .ok (.error .corruptData, t.loseBuffer)
    | some len0 =>
      .ok (.ok .written, t.write (S * region + offset + lenOffset) [len0 &&& ~~~0x80])

def zeroiseKey (hash : BitVec 64) : Result S (Except ErrorCode SuccessCode) :=
  match t.locate hash with
  | .error abort => .error abort
  | .ok (.error e) => .ok (.error e, t)
  | .ok (.ok (region, offset, length)) =>
    let regionData := t.readRegion region
    match regionData[offset + lenOffset]? with
    | none => .ok (.error .corruptData, t.loseBuffer)
    | some len0 =>
      -- The loop goes `HEADER_LENGTH` bytes beyond the entry.
      if regionData.length < offset + length + headerLength then
        .ok (.error .regionFull, t.loseBuffer)
      else
        let header := ((regionData.set (offset + lenOffset)
          (len0 &&& ~~~0x80)).drop offset).take headerLength
        .ok (.ok .written, t.write (S * region + offset)
          ((header ++ List.replicate (length - headerLength) 0).take length))

/-! ## Appending -/

/-- What the loop of `append_key` over the entries of a region ends with. -/
inductive AppendScan where
  | nextRegion
  | free (offset : ℕ)
  | failed (e : ErrorCode) (keepsBuffer : Bool)
  | diverges

def appendScan (S packageLength : ℕ) (regionData : List Byte) : ℕ → ℕ → AppendScan
  | 0, _ => .diverges
  | fuel + 1, offset =>
    if offset + packageLength ≥ S then
      .nextRegion
    else
      match regionData[offset + versionOffset]? with
      | none => .failed .keyNotFound false
      | some v =>
        if v ≠ 0xFF then
          if v ≠ version then
            .failed .unsupportedVersion true
          else
            match regionData[offset + lenOffset]?, regionData[offset + lenOffset + 1]? with
            | some len0, some len1 =>
              appendScan S packageLength regionData fuel (offset + totalLength len0 len1)
            | _, _ => .failed .corruptData false
        else
          match differsAt regionData () (offset + hashOffset) (List.replicate 8 0xFF) with
          | .error () => .failed .corruptData false
          | .ok true => .failed .corruptData true
          | .ok false => .free offset

def packageBytes (hash : BitVec 64) (value : List Byte) : List Byte :=
  headerBytes hash (.ofNat 16 (headerLength + value.length + checkSumLen)) ++ value

def objectBytes (hash : BitVec 64) (value : List Byte) : List Byte :=
  packageBytes hash value ++ checkSumBytes (Crc32.finalise
    (Crc32.update 0 (packageBytes hash value)))

def appendLoop (t : TicKV S) (hash : BitVec 64) (value : List Byte)
    (region : ℕ) : ℕ → ℤ → Result S (Except ErrorCode SuccessCode)
  | 0, _ => .error .diverges
  | fuel + 1, regionOffset =>
    let newRegion := (region + regionOffset).toNat
    if !t.readBuffer then
      .error .panic
    else
      let regionData := t.readRegion newRegion
      match findKeyOffset S hash regionData with
      | .ok _ => .ok (.error .keyAlreadyExists, t)
      | .error _ =>
        match appendScan S (headerLength + value.length) regionData (S + 1) 0 with
        | .nextRegion =>
          match t.incrementRegionOffset region (newRegion - region) with
          | some o => appendLoop t hash value region fuel o
          | none => .ok (.error .flashFull, t)
        | .failed e keepsBuffer =>
          .ok (.error e, if keepsBuffer then t else t.loseBuffer)
        | .diverges => .error .diverges
        | .free offset =>
          -- Room for the checksum has not been looked for.
          if S < offset + (headerLength + value.length) + checkSumLen then
            .ok (.error .objectTooLarge, t.loseBuffer)
          else
            .ok (.ok .written, t.write (S * newRegion + offset) (objectBytes hash value))

def appendKey (hash : BitVec 64) (value : List Byte) : Result S (Except ErrorCode SuccessCode) :=
  match t.getRegion hash with
  | .error abort => .error abort
  | .ok region =>
    let objectLength := headerLength + value.length + checkSumLen
    if objectLength > 0xFFF then
      .ok (.error .objectTooLarge, t)
    else if objectLength = 0xFFF then
      -- The assertion of `ObjectHeader::new`.
      .error .panic
    else
      t.appendLoop hash value region (2 * t.numRegion + 1) 0

/-! ## Garbage collection -/

inductive CollectScan where
  | erase
  | keep
  | failed (e : ErrorCode) (keepsBuffer : Bool)
  | diverges
  deriving DecidableEq

def collectScan (S : ℕ) (regionData : List Byte) : ℕ → ℕ → Bool → CollectScan
  | 0, _, _ => .diverges
  | fuel + 1, offset, entryFound =>
    if offset ≥ S then
      .erase
    else
      match regionData[offset + versionOffset]? with
      | none => .failed .keyNotFound false
      | some v =>
        if v ≠ 0xFF then
          if v ≠ version then
            .failed .unsupportedVersion true
          else
            match regionData[offset + lenOffset]?, regionData[offset + lenOffset + 1]? with
            | some len0, some len1 =>
              if len0 &&& 0x80 ≠ 0x80 then
                collectScan S regionData fuel (offset + totalLength len0 len1) true
              else
                .keep
            | _, _ => .failed .corruptData false
        else if entryFound then
          .erase
        else
          .keep

def garbageCollectRegion (region : ℕ) : Result S (Except ErrorCode ℕ) :=
  if !t.readBuffer then
    .error .panic
  else
    match collectScan S (t.readRegion region) (S + 1) 0 false with
    | .erase => .ok (.ok S, t.eraseRegion region)
    | .keep => .ok (.ok 0, t)
    | .failed e keepsBuffer =>
      .ok (.error e, if keepsBuffer then t else t.loseBuffer)
    | .diverges => .error .diverges

def collectLoop (t : TicKV S) : List ℕ → ℕ → Result S (Except ErrorCode ℕ)
  | [], flashFreed => .ok (.ok flashFreed, t)
  | region :: regions, flashFreed =>
    match t.garbageCollectRegion region with
    | .error abort => .error abort
    | .ok (.ok freed, t) => t.collectLoop regions (flashFreed + freed)
    | .ok (.error e, t) => .ok (.error e, t)

def garbageCollect : Result S (Except ErrorCode ℕ) :=
  -- The number of regions is a division by the size of a region.
  if S = 0 then .error .panic
  else t.collectLoop (List.range t.numRegion) 0

def eraseAll : TicKV S :=
  (List.range t.numRegion).foldl eraseRegion t

def initialise (hashedMainKey : BitVec 64) : Result S (Except ErrorCode SuccessCode) :=
  match t.getKey hashedMainKey [] with
  | .error abort => .error abort
  | .ok ((.ok (ret, _), _), t) => .ok (.ok ret, t)
  | .ok ((.error _, _), t) => t.eraseAll.appendKey hashedMainKey []

end TicKV

end TockKernel

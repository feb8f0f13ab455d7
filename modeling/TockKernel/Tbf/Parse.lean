import TockKernel.Tbf.Types

/-!
# Parsing the Tock Binary Format

A model of `libraries/tock-tbf/src/parse.rs`.
-/

namespace TockKernel.Tbf

/-- The version, the length of the header and the length of the whole binary,
from the first eight bytes. -/
def parseTbfHeaderLengths (app : List Byte) :
    Except InitialTbfParseError (BitVec 16 × BitVec 16 × BitVec 32) := do
  let version ← u16At app 0 .unableToParse
  if version = 2 then
    let tbfHeaderSize ← u16At app 2 .unableToParse
    let tbfSize ← u32At app 4 .unableToParse
    if tbfHeaderSize.toNat > tbfSize.toNat ∨ tbfHeaderSize.toNat < 16 then
      throw (.invalidHeader tbfSize)
    else
      return (version, tbfHeaderSize, tbfSize)
  else
    throw .unableToParse

/-! ## The header -/

def xorWords : ℕ → List Byte → BitVec 32
  | i, a :: b :: c :: d :: rest =>
    (if i = 3 then 0 else d ++ c ++ b ++ a) ^^^ xorWords (i + 1) rest
  | _, _ => 0

structure TlvFields where
  main : Option TbfHeaderV2Main
  program : Option TbfHeaderV2Program
  packageName : List Byte
  writeableRegions : Option (List Byte)
  fixedAddresses : Option (List Byte)
  permissions : Option (List Byte)
  storagePermissions : Option (List Byte)
  kernelVersion : Option TbfHeaderV2KernelVersion
  shortId : Option TbfHeaderV2ShortId

def TlvFields.empty : TlvFields where
  main := none
  program := none
  packageName := []
  writeableRegions := none
  fixedAddresses := none
  permissions := none
  storagePermissions := none
  kernelVersion := none
  shortId := none

/-- `remaining.get(0..len)`, or an error. -/
def takeBytes (remaining : List Byte) (len : ℕ) : Except TbfParseError (List Byte) :=
  match slice remaining 0 len with
  | some bytes => .ok bytes
  | none => .error .notEnoughFlash

def fixedEntry (tlv : TbfTlv) (entryLen : ℕ) (remaining : List Byte) :
    Except TbfParseError (List Byte) :=
  if tlv.length.toNat = entryLen then
    takeBytes remaining entryLen
  else
    .error (.badTlvEntry tlv.tipe.discriminant)

def isUtf8 (bytes : List Byte) : Bool :=
  (ByteArray.mk (bytes.map fun b => UInt8.ofBitVec b).toArray).validateUTF8

/-- One entry of the header. The first Main and the first Program entry
count, and the last entry of any other type. -/
def parseTlv (tlv : TbfTlv) (remaining : List Byte) (fields : TlvFields) :
    Except TbfParseError TlvFields :=
  match tlv.tipe with
  | .main =>
    if fields.main.isNone then do
      let main ← TbfHeaderV2Main.tryFrom (← fixedEntry tlv 12 remaining)
      return { fields with main := some main }
    else
      .ok fields
  | .program =>
    if fields.program.isNone then do
      let program ← TbfHeaderV2Program.tryFrom (← fixedEntry tlv 20 remaining)
      return { fields with program := some program }
    else
      .ok fields
  | .writeableFlashRegions =>
    if tlv.length.toNat % 8 = 0 then do
      let wfr ← takeBytes remaining tlv.length.toNat
      return { fields with writeableRegions := some wfr }
    else
      .error (.badTlvEntry tlv.tipe.discriminant)
  | .packageName => do
      let name ← takeBytes remaining tlv.length.toNat
      if isUtf8 name then
        return { fields with packageName := name }
      else
        throw .badProcessName
  | .fixedAddresses => do
      let bytes ← fixedEntry tlv 8 remaining
      return { fields with fixedAddresses := some bytes }
  | .permissions => do
      let bytes ← takeBytes remaining tlv.length.toNat
      return { fields with permissions := some bytes }
  | .storagePermissions => do
      let bytes ← takeBytes remaining tlv.length.toNat
      return { fields with storagePermissions := some bytes }
  | .kernelVersion => do
      let version ← TbfHeaderV2KernelVersion.tryFrom (← fixedEntry tlv 4 remaining)
      return { fields with kernelVersion := some version }
  | .shortId => do
      let shortId ← TbfHeaderV2ShortId.tryFrom (← fixedEntry tlv 4 remaining)
      return { fields with shortId := some shortId }
  | .footerCredentials | .unknown => .ok fields

def skipLen (length : BitVec 16) : ℕ := (length.toNat + 3) / 4 * 4

/-- One iteration of the loop over the entries. -/
def nextTlv (remaining : List Byte) (fields : TlvFields) :
    Except TbfParseError (List Byte × TlvFields) := do
  let tlv ← TbfTlv.tryFrom (← takeBytes remaining 4)
  let remaining := remaining.drop 4
  let fields ← parseTlv tlv remaining fields
  match sliceFrom remaining (skipLen tlv.length) with
  | none => throw .notEnoughFlash
  | some remaining => return (remaining, fields)

/-- The loop over the entries. Each of them takes four bytes at least, so
that the length of what remains is enough as a bound. -/
def parseTlvs : ℕ → List Byte → TlvFields → Except TbfParseError TlvFields
  | _, [], fields => .ok fields
  | 0, _ :: _, _ => .error .internalError
  | fuel + 1, byte :: bytes, fields => do
      let (remaining, fields) ← nextTlv (byte :: bytes) fields
      parseTlvs fuel remaining fields

def parseTbfHeader (header : List Byte) (version : BitVec 16) : Except TbfParseError TbfHeader :=
  if version = 2 then do
    let base ← TbfHeaderV2Base.tryFrom header
    let checksum := xorWords 0 header
    if checksum ≠ base.checksum then
      throw (.checksumMismatch base.checksum checksum)
    match header.drop 16 with
    | [] => return .padding base
    | byte :: bytes =>
      let fields ← parseTlvs (bytes.length + 1) (byte :: bytes) .empty
      return .v2 {
        base
        main := fields.main
        program := fields.program
        packageName := some fields.packageName
        writeableRegions := fields.writeableRegions
        fixedAddresses := fields.fixedAddresses
        permissions := fields.permissions
        storagePermissions := fields.storagePermissions
        kernelVersion := fields.kernelVersion
        shortId := fields.shortId }
  else
    .error (.unsupportedVersion version)

def parseTbfFooter (footers : List Byte) : Except TbfParseError (TbfFooterV2Credentials × ℕ) := do
  let tlv ← TbfTlv.tryFrom (← takeBytes footers 4)
  match tlv.tipe with
  | .footerCredentials =>
    let bytes ← takeBytes (footers.drop 4) tlv.length.toNat
    return (← TbfFooterV2Credentials.tryFrom bytes, tlv.length.toNat)
  | tipe => throw (.badTlvEntry tipe.discriminant)

end TockKernel.Tbf

import TockKernel.Bytes

/-!
# The Tock Binary Format

The types of `libraries/tock-tbf/src/types.rs` and the conversions from slices
to them.
-/

namespace TockKernel.Tbf

inductive InitialTbfParseError where
  | unableToParse
  | invalidHeader (appLength : BitVec 32)
  deriving DecidableEq

inductive TbfParseError where
  | notEnoughFlash
  | unsupportedVersion (version : BitVec 16)
  | checksumMismatch (app calculated : BitVec 32)
  | badTlvEntry (tipe : ℕ)
  | badProcessName
  | internalError
  | tooManyEntries (tipe : ℕ)
  deriving DecidableEq

/-! ## Headers -/

structure TbfHeaderV2Base where
  version : BitVec 16
  headerSize : BitVec 16
  totalSize : BitVec 32
  flags : BitVec 32
  checksum : BitVec 32
  deriving DecidableEq

inductive TbfHeaderTypes where
  | main
  | writeableFlashRegions
  | packageName
  | fixedAddresses
  | permissions
  | storagePermissions
  | kernelVersion
  | program
  | shortId
  | footerCredentials
  | unknown
  deriving DecidableEq

def TbfHeaderTypes.discriminant : TbfHeaderTypes → ℕ
  | .main => 1
  | .writeableFlashRegions => 2
  | .packageName => 3
  | .fixedAddresses => 5
  | .permissions => 6
  | .storagePermissions => 7
  | .kernelVersion => 8
  | .program => 9
  | .shortId => 10
  | .footerCredentials => 128
  | .unknown => 129

structure TbfTlv where
  tipe : TbfHeaderTypes
  length : BitVec 16
  deriving DecidableEq

structure TbfHeaderV2Main where
  initFnOffset : BitVec 32
  protectedTrailerSize : BitVec 32
  minimumRamSize : BitVec 32
  deriving DecidableEq

structure TbfHeaderV2Program where
  initFnOffset : BitVec 32
  protectedTrailerSize : BitVec 32
  minimumRamSize : BitVec 32
  binaryEndOffset : BitVec 32
  version : BitVec 32
  deriving DecidableEq

structure TbfHeaderV2FixedAddresses where
  startProcessRam : BitVec 32
  startProcessFlash : BitVec 32
  deriving DecidableEq

structure TbfHeaderV2KernelVersion where
  major : BitVec 16
  minor : BitVec 16
  deriving DecidableEq

structure TbfHeaderV2ShortId where
  shortId : Option (BitVec 32)
  deriving DecidableEq

inductive TbfFooterV2CredentialsType where
  | reserved
  | rsa3072Key
  | rsa4096Key
  | sha256
  | sha384
  | sha512
  deriving DecidableEq

structure TbfFooterV2Credentials where
  format : TbfFooterV2CredentialsType
  data : List Byte
  deriving DecidableEq

/-! ## Conversions from slices -/

variable (b : List Byte)

def TbfHeaderV2Base.tryFrom : Except TbfParseError TbfHeaderV2Base := do
  if b.length < 16 then
    throw .internalError
  return {
    version := ← u16At b 0 .internalError
    headerSize := ← u16At b 2 .internalError
    totalSize := ← u32At b 4 .internalError
    flags := ← u32At b 8 .internalError
    checksum := ← u32At b 12 .internalError }

def TbfHeaderTypes.ofU16 (h : BitVec 16) : TbfHeaderTypes :=
  match h.toNat with
  | 1 => .main
  | 2 => .writeableFlashRegions
  | 3 => .packageName
  | 5 => .fixedAddresses
  | 6 => .permissions
  | 7 => .storagePermissions
  | 8 => .kernelVersion
  | 9 => .program
  | 10 => .shortId
  | 128 => .footerCredentials
  | _ => .unknown

def TbfTlv.tryFrom : Except TbfParseError TbfTlv := do
  return {
    tipe := .ofU16 (← u16At b 0 .internalError)
    length := ← u16At b 2 .internalError }

def TbfHeaderV2Main.tryFrom : Except TbfParseError TbfHeaderV2Main := do
  if b.length < 12 then
    throw .internalError
  return {
    initFnOffset := ← u32At b 0 .internalError
    protectedTrailerSize := ← u32At b 4 .internalError
    minimumRamSize := ← u32At b 8 .internalError }

def TbfHeaderV2Program.tryFrom : Except TbfParseError TbfHeaderV2Program := do
  if b.length < 20 then
    throw .internalError
  return {
    initFnOffset := ← u32At b 0 .internalError
    protectedTrailerSize := ← u32At b 4 .internalError
    minimumRamSize := ← u32At b 8 .internalError
    binaryEndOffset := ← u32At b 12 .internalError
    version := ← u32At b 16 .internalError }

def TbfHeaderV2FixedAddresses.tryFrom : Except TbfParseError TbfHeaderV2FixedAddresses := do
  return {
    startProcessRam := ← u32At b 0 .internalError
    startProcessFlash := ← u32At b 4 .internalError }

def TbfHeaderV2KernelVersion.tryFrom : Except TbfParseError TbfHeaderV2KernelVersion := do
  return {
    major := ← u16At b 0 .internalError
    minor := ← u16At b 2 .internalError }

def nonZero (value : BitVec 32) : Option (BitVec 32) :=
  if value = 0 then none else some value

def TbfHeaderV2ShortId.tryFrom : Except TbfParseError TbfHeaderV2ShortId := do
  return { shortId := nonZero (← u32At b 0 .internalError) }

def TbfFooterV2CredentialsType.ofU32 (format : BitVec 32) : Option TbfFooterV2CredentialsType :=
  match format.toNat with
  | 0 => some .reserved
  | 1 => some .rsa3072Key
  | 2 => some .rsa4096Key
  | 3 => some .sha256
  | 4 => some .sha384
  | 5 => some .sha512
  | _ => none

def TbfFooterV2CredentialsType.length : TbfFooterV2CredentialsType → ℕ
  | .reserved => 0
  | .rsa3072Key => 768
  | .rsa4096Key => 1024
  | .sha256 => 32
  | .sha384 => 48
  | .sha512 => 64

def TbfFooterV2Credentials.tryFrom : Except TbfParseError TbfFooterV2Credentials := do
  let format ← u32At b 0 .internalError
  match TbfFooterV2CredentialsType.ofU32 format with
  | none => throw (.badTlvEntry TbfHeaderTypes.footerCredentials.discriminant)
  | some ftype =>
    match slice b 4 (ftype.length + 4) with
    | none => throw .notEnoughFlash
    | some data => return { format := ftype, data }

/-! ## The whole header -/

structure TbfHeaderV2 where
  base : TbfHeaderV2Base
  main : Option TbfHeaderV2Main
  program : Option TbfHeaderV2Program
  packageName : Option (List Byte)
  writeableRegions : Option (List Byte)
  fixedAddresses : Option (List Byte)
  permissions : Option (List Byte)
  storagePermissions : Option (List Byte)
  kernelVersion : Option TbfHeaderV2KernelVersion
  shortId : Option TbfHeaderV2ShortId
  deriving DecidableEq

inductive TbfHeader where
  | v2 (hd : TbfHeaderV2)
  | padding (base : TbfHeaderV2Base)
  deriving DecidableEq

namespace TbfHeader

def isApp : TbfHeader → Bool
  | .v2 _ => true
  | .padding _ => false

def enabled : TbfHeader → Bool
  | .v2 hd => hd.base.flags &&& 1 == 1
  | .padding _ => false

def getProtectedSize : TbfHeader → BitVec 32
  | .v2 hd =>
    match hd.program, hd.main with
    | some p, _ => hd.base.headerSize.setWidth 32 + p.protectedTrailerSize
    | none, some m => hd.base.headerSize.setWidth 32 + m.protectedTrailerSize
    | none, none => 0
  | .padding _ => 0

def getFixedAddressFlash : TbfHeader → Option (BitVec 32)
  | .v2 hd => do
      let fixedAddresses ← (TbfHeaderV2FixedAddresses.tryFrom (← hd.fixedAddresses)).toOption
      if fixedAddresses.startProcessFlash = 0xFFFFFFFF then
        none
      else
        some fixedAddresses.startProcessFlash
  | .padding _ => none

def getKernelVersion : TbfHeader → Option (BitVec 16 × BitVec 16)
  | .v2 hd => hd.kernelVersion.map fun v => (v.major, v.minor)
  | .padding _ => none

def getBinaryEnd : TbfHeader → BitVec 32
  | .v2 hd =>
    match hd.program with
    | some p => p.binaryEndOffset
    | none => hd.base.totalSize
  | .padding _ => 0

def getBinaryVersion : TbfHeader → BitVec 32
  | .v2 hd =>
    match hd.program with
    | some p => p.version
    | none => 0
  | .padding _ => 0

end TbfHeader

end TockKernel.Tbf

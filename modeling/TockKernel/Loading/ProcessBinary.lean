import TockKernel.Tbf.Parse

/-!
# Process binaries

A model of `kernel/src/process_binary.rs` and of the types that
`kernel/src/process_loading.rs` and `kernel/src/process_checker.rs` share.
-/

namespace TockKernel.Loading

open Tbf

structure FlashSlice where
  address : BitVec 32
  bytes : List Byte
  deriving DecidableEq

def FlashSlice.length (flash : FlashSlice) : ℕ := flash.bytes.length

def FlashSlice.get (flash : FlashSlice) (start stop : ℕ) : Option FlashSlice :=
  (slice flash.bytes start stop).map fun bytes =>
    { address := flash.address + BitVec.ofNat 32 start, bytes }

def FlashSlice.getFrom (flash : FlashSlice) (start : ℕ) : Option FlashSlice :=
  (sliceFrom flash.bytes start).map fun bytes =>
    { address := flash.address + BitVec.ofNat 32 start, bytes }

inductive ProcessBinaryError where
  | tbfHeaderNotFound
  | tbfHeaderParseFailure (error : TbfParseError)
  | notEnoughFlash
  | incompatibleKernelVersion (version : Option (BitVec 16 × BitVec 16))
  | incorrectFlashAddress (actualAddress expectedAddress : BitVec 32)
  | notEnabledProcess
  | padding
  deriving DecidableEq

inductive ProcessCheckError where
  | credentialsNotAccepted
  | credentialsRejected (index : BitVec 32)
  | internalError
  deriving DecidableEq

inductive ProcessLoadError where
  | notEnoughMemory
  | mpuInvalidFlashLength
  | mpuConfigurationError
  | memoryAddressMismatch (actualAddress expectedAddress : BitVec 32)
  | noProcessSlot
  | binaryError (error : ProcessBinaryError)
  | checkError (error : ProcessCheckError)
  | internalError
  deriving DecidableEq

/-! ## Process binaries -/

structure AcceptedCredential where
  credential : TbfFooterV2Credentials
  metadata : Option ℕ
  deriving DecidableEq

structure ProcessBinary where
  flash : FlashSlice
  footers : List Byte
  header : TbfHeader
  credential : Option AcceptedCredential
  deriving DecidableEq

def kernelMajorVersion : BitVec 16 := 2

def kernelMinorVersion : BitVec 16 := 1

def checkKernelVersion (header : TbfHeader) (requireKernelVersion : Bool) :
    Except ProcessBinaryError Unit :=
  match header.getKernelVersion with
  | some (major, minor) =>
    if kernelMajorVersion ≠ major ∨ kernelMinorVersion.toNat < minor.toNat then
      .error (.incompatibleKernelVersion (some (major, minor)))
    else
      .ok ()
  | none =>
    if requireKernelVersion then
      .error (.incompatibleKernelVersion none)
    else
      .ok ()

/-- The sum wraps around, as in a build without overflow checks; one with them
stops at a header whose protected size reaches past the end of the address space. -/
def checkFlashAddress (appFlash : FlashSlice) (header : TbfHeader) :
    Except ProcessBinaryError Unit :=
  match header.getFixedAddressFlash with
  | none => .ok ()
  | some expectedAddress =>
    let actualAddress := appFlash.address + header.getProtectedSize
    if actualAddress ≠ expectedAddress then
      .error (.incorrectFlashAddress actualAddress expectedAddress)
    else
      .ok ()

def ProcessBinary.create (appFlash : FlashSlice) (headerLength : ℕ)
    (tbfVersion : BitVec 16) (requireKernelVersion : Bool) :
    Except ProcessBinaryError ProcessBinary := do
  let some headerFlash := slice appFlash.bytes 0 headerLength
    | throw .notEnoughFlash
  let header ←
    match parseTbfHeader headerFlash tbfVersion with
    | .ok header => .ok header
    | .error error => .error (.tbfHeaderParseFailure error)
  if !header.isApp then
    throw .padding
  if !header.enabled then
    throw .notEnabledProcess
  checkKernelVersion header requireKernelVersion
  let some footers := slice appFlash.bytes header.getBinaryEnd.toNat appFlash.length
    | throw .notEnoughFlash
  checkFlashAddress appFlash header
  return { flash := appFlash, footers, header, credential := none }

inductive ShortId where
  | locallyUnique
  | fixed (id : BitVec 32) (nonzero : id ≠ 0)
  deriving DecidableEq

/-- `==` on short identifiers: a locally unique one equals none, not even
itself. -/
def ShortId.eq : ShortId → ShortId → Bool
  | .fixed a _, .fixed b _ => a == b
  | _, _ => false

theorem ShortId.eq_comm (a b : ShortId) : a.eq b = b.eq a := by
  cases a with
  | locallyUnique => cases b <;> rfl
  | fixed a ha =>
    cases b with
    | locallyUnique => rfl
    | fixed b hb => exact BEq.comm

end TockKernel.Loading

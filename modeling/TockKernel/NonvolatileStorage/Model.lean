import TockKernel.Bytes
import TockKernel.ProcessTypes

/-!
# The nonvolatile storage driver

A model of `capsules/extra/src/nonvolatile_storage_driver.rs`: processes and one
client in the kernel share a storage device that carries out one call at a
time. The capsule has one buffer for the bytes of the processes, which is away
with the device while a process's call is in progress.
-/

namespace TockKernel.NonvolatileStorage

/-- Addition of `usize` on a 32-bit platform, without overflow checks. -/
def wrappingAdd (a b : ℕ) : ℕ := (a + b) % 2 ^ 32

/-- `for (i, c) in buffer[0..n].iter_mut().enumerate()`: the first bytes of the
buffer are replaced. -/
def overwrite (buffer bytes : List Byte) : List Byte :=
  bytes ++ buffer.drop bytes.length

/-! ## The device -/

def load (storage : ℕ → Byte) (address length : ℕ) : List Byte :=
  (List.range length).map fun i => storage (address + i)

def store (storage : ℕ → Byte) (address : ℕ) (bytes : List Byte) : ℕ → Byte :=
  fun a =>
    if address ≤ a then (bytes[a - address]?).getD (storage a) else storage a

inductive NonvolatileCommand where
  | userspaceRead
  | userspaceWrite
  | kernelRead
  | kernelWrite
  deriving DecidableEq, Repr

inductive NonvolatileUser (ι : Type*) where
  | app (processid : ι)
  | kernel
  deriving DecidableEq

/-- The arguments of a command, and the contents of the buffer that was shared
for it at that time. -/
structure Request where
  command : NonvolatileCommand
  offset : ℕ
  length : ℕ
  allowed : List Byte

inductive Origin (ι : Type*) where
  | app (processid : ι) (request : Request)
  | kernel

/-- A call of the device that is not completed. The origin is recorded by the
model: neither the capsule nor the device knows it. -/
structure DriverCall (ι : Type*) where
  write : Bool
  buffer : List Byte
  address : ℕ
  length : ℕ
  origin : Origin ι

/-! ## The capsule -/

structure App where
  pendingCommand : Bool := false
  command : NonvolatileCommand := .userspaceRead
  offset : ℕ := 0
  length : ℕ := 0
  /-- The command that is waiting, as it was made; not a field of the code. -/
  request : Request := ⟨.userspaceRead, 0, 0, []⟩

structure Layout where
  userspaceStartAddress : ℕ
  userspaceLength : ℕ
  kernelStartAddress : ℕ
  kernelLength : ℕ

/-- The capsule, the buffers that the processes share with it, and the device
with the call in progress. -/
structure Capsule (ι : Type*) where
  apps : ι → App
  /-- The read-only buffer of each process, empty if it shares none. -/
  writeBuffer : ι → List Byte
  readBuffer : ι → List Byte
  buffer : Option (List Byte)
  currentUser : Option (NonvolatileUser ι)
  kernelPendingCommand : Bool
  kernelCommand : NonvolatileCommand
  kernelBuffer : Option (List Byte)
  kernelReadwriteLength : ℕ
  kernelReadwriteAddress : ℕ
  storage : ℕ → Byte
  driver : Option (DriverCall ι)
  /-- Whether the device has ever turned a call away. -/
  refused : Bool

/-- A call of `read` or `write` by the client in the kernel. -/
structure KernelRequest where
  write : Bool
  buffer : List Byte
  address : ℕ
  length : ℕ

variable {ι : Type*}

namespace Capsule

/-- `driver.read` and `driver.write`. The device takes a call only when it has
none, and may turn it away even then; a buffer is not handed back. -/
def callDriver (accepts : DriverCall ι → Bool) (s : Capsule ι)
    (call : DriverCall ι) : Except ErrorCode Unit × Capsule ι :=
  if s.driver.isNone && accepts call then
    (.ok (), { s with driver := some call })
  else
    (.error .busy, { s with refused := true })

variable (layout : Layout) (accepts : DriverCall ι → Bool)

variable (s : Capsule ι)

def userspaceCallDriver (command : NonvolatileCommand) (offset length : ℕ) (origin : Origin ι) :
    Except ErrorCode Unit × Capsule ι :=
  let physicalAddress := wrappingAdd offset layout.userspaceStartAddress
  match s.buffer with
  | none => (.error .reserve, s)
  | some buffer =>
    let s := { s with buffer := none }
    let activeLen := min length buffer.length
    match command with
    | .userspaceRead =>
      s.callDriver accepts ⟨false, buffer, physicalAddress, activeLen, origin⟩
    | .userspaceWrite =>
      s.callDriver accepts ⟨true, buffer, physicalAddress, activeLen, origin⟩
    | _ => (.error .fail, s)

def userspaceInBounds (offset length : ℕ) : Bool :=
  !(offset ≥ layout.userspaceLength || length > layout.userspaceLength ||
    wrappingAdd offset length > layout.userspaceLength)

def kernelInBounds (offset length : ℕ) : Bool :=
  let stop := wrappingAdd layout.kernelStartAddress layout.kernelLength
  !(offset < layout.kernelStartAddress || offset ≥ stop ||
    length > layout.kernelLength || wrappingAdd offset length > stop)

variable [DecidableEq ι]

def allowed (processid : ι) : NonvolatileCommand → List Byte
  | .userspaceRead => s.readBuffer processid
  | .userspaceWrite => s.writeBuffer processid
  | _ => []

def copyIn (command : NonvolatileCommand) (processid : ι) (activeLen : ℕ) : Capsule ι :=
  if command = .userspaceWrite then
    { s with buffer := s.buffer.map fun kernelBuffer =>
        let writeLen := min activeLen kernelBuffer.length
        overwrite kernelBuffer ((s.writeBuffer processid).take writeLen) }
  else
    s

def enqueueUserspace (command : NonvolatileCommand) (offset length : ℕ) (processid : ι) :
    Except ErrorCode Unit × Capsule ι :=
  if !userspaceInBounds layout offset length then
    (.error .inval, s)
  else
    let request : Request := ⟨command, offset, length, s.allowed processid command⟩
    let allowBufLen := (s.allowed processid command).length
    if allowBufLen = 0 || s.buffer.isNone then
      (.error .reserve, s)
    else
      let activeLen := min length allowBufLen
      if s.currentUser.isNone then
        let s := { s with currentUser := some (.app processid) }
        (s.copyIn command processid activeLen).userspaceCallDriver layout accepts
          command offset activeLen (.app processid request)
      else if (s.apps processid).pendingCommand then
        (.error .nomem, s)
      else
        let app : App := ⟨true, command, offset, activeLen, request⟩
        (.ok (), { s with apps := Function.update s.apps processid app })

/-- `command`: the value is that of a successful answer. -/
def command
    (commandNum offset length : ℕ) (processid : ι) : Except ErrorCode (Option ℕ) × Capsule ι :=
  match commandNum with
  | 0 => (.ok none, s)
  | 1 => (.ok (some layout.userspaceLength), s)
  | 2 =>
    let (result, s) := s.enqueueUserspace layout accepts .userspaceRead offset length processid
    (result.map fun _ => none, s)
  | 3 =>
    let (result, s) := s.enqueueUserspace layout accepts .userspaceWrite offset length processid
    (result.map fun _ => none, s)
  | _ => (.error .nosupport, s)

omit [DecidableEq ι] in
/-- `read` and `write` for the client in the kernel, with `enqueue_command`. -/
def enqueueKernel (request : KernelRequest) : Except ErrorCode Unit × Capsule ι :=
  if !kernelInBounds layout request.address request.length then
    (.error .inval, { s with kernelBuffer := some request.buffer })
  else
    let activeLen := min request.length request.buffer.length
    if s.currentUser.isNone then
      callDriver accepts { s with kernelBuffer := none, currentUser := some .kernel }
        ⟨request.write, request.buffer, request.address, activeLen, .kernel⟩
    else if s.kernelPendingCommand then
      -- The buffer that waited has been replaced, and is lost with this one.
      (.error .nomem, { s with kernelBuffer := none })
    else
      (.ok (), { s with
        kernelPendingCommand := true
        kernelCommand := if request.write then .kernelWrite else .kernelRead
        kernelReadwriteLength := activeLen
        kernelReadwriteAddress := request.address
        kernelBuffer := some request.buffer })

/-- The loop of `check_queue` over the processes: the first command that can be
started ends it. -/
def checkApps (layout : Layout) (accepts : DriverCall ι → Bool) : List ι → Capsule ι → Capsule ι
  | [], s => s
  | processid :: rest, s =>
    let app := s.apps processid
    if app.pendingCommand then
      let s := { s with
        apps := Function.update s.apps processid
          { app with pendingCommand := false }
        currentUser := some (.app processid) }
      match s.userspaceCallDriver layout accepts app.command app.offset
          app.length (.app processid app.request) with
      | (.ok (), s) => s
      | (.error _, s) => checkApps layout accepts rest s
    else
      checkApps layout accepts rest s

variable (processes : List ι)

/-- `apps.iter()` goes through the processes in the order of `processes`. -/
def checkQueue (accepts : DriverCall ι → Bool) (s : Capsule ι) : Capsule ι :=
  if s.kernelPendingCommand then
    match s.kernelBuffer with
    | none => s
    | some kernelBuffer =>
      let s := { s with
        kernelBuffer := none
        kernelPendingCommand := false
        currentUser := some .kernel }
      match s.kernelCommand with
      | .kernelRead =>
        (s.callDriver accepts ⟨false, kernelBuffer, s.kernelReadwriteAddress,
          s.kernelReadwriteLength, .kernel⟩).2
      | .kernelWrite =>
        (s.callDriver accepts ⟨true, kernelBuffer, s.kernelReadwriteAddress,
          s.kernelReadwriteLength, .kernel⟩).2
      | _ => s
  else
    checkApps layout accepts processes s

omit [DecidableEq ι] in
def kernelCallback : Option KernelRequest → Capsule ι
  | none => s
  | some request => (s.enqueueKernel layout accepts request).2

/-- `read_done`, where the client in the kernel makes the request `next` from
inside its callback. -/
def readDone (accepts : DriverCall ι → Bool) (s : Capsule ι) (buffer : List Byte) (length : ℕ)
    (next : Option KernelRequest) : Capsule ι :=
  let user := s.currentUser
  let s := { s with currentUser := none }
  let s :=
    match user with
    | none => s
    | some .kernel => s.kernelCallback layout accepts next
    | some (.app processid) =>
      let readLen := min (s.readBuffer processid).length length
      { s with
        readBuffer := Function.update s.readBuffer processid
          (overwrite (s.readBuffer processid) (buffer.take readLen))
        buffer := some buffer }
  s.checkQueue layout processes accepts

def writeDone (accepts : DriverCall ι → Bool) (s : Capsule ι) (buffer : List Byte)
    (next : Option KernelRequest) : Capsule ι :=
  let user := s.currentUser
  let s := { s with currentUser := none }
  let s :=
    match user with
    | none => s
    | some .kernel => s.kernelCallback layout accepts next
    | some (.app _) => { s with buffer := some buffer }
  s.checkQueue layout processes accepts

def completeCall
    (accepts : DriverCall ι → Bool) (s : Capsule ι) (next : Option KernelRequest) : Capsule ι :=
  match s.driver with
  | none => s
  | some call =>
    let bytes := call.buffer.take call.length
    if call.write then
      writeDone layout processes accepts
        { s with
          driver := none
          storage := store s.storage call.address bytes }
        call.buffer next
    else
      readDone layout processes accepts { s with driver := none }
        (overwrite call.buffer (load s.storage call.address call.length)) call.length next

end Capsule

/-- What happens to the capsule. A process may share another buffer, or change
the contents of the one it shares, at any time. -/
inductive Event (ι : Type*) where
  | allowReadonly (processid : ι) (buffer : List Byte)
  | allowReadwrite (processid : ι) (buffer : List Byte)
  | command (commandNum offset length : ℕ) (processid : ι)
  | kernelRequest (request : KernelRequest)
  | complete (next : Option KernelRequest)

variable [DecidableEq ι]

def step (layout : Layout) (processes : List ι) (accepts : DriverCall ι → Bool)
    (s : Capsule ι) : Event ι → Capsule ι
  | .allowReadonly processid buffer =>
    { s with writeBuffer := Function.update s.writeBuffer processid buffer }
  | .allowReadwrite processid buffer =>
    { s with readBuffer := Function.update s.readBuffer processid buffer }
  | .command commandNum offset length processid =>
    (s.command layout accepts commandNum offset length processid).2
  | .kernelRequest request => (s.enqueueKernel layout accepts request).2
  | .complete next => s.completeCall layout processes accepts next

end TockKernel.NonvolatileStorage
